import Bracketry.Error

/-!
# Byte streams

The input and the output of a program as queues of answers: each operation takes the next answer of its queue. An empty queue
stands for a stream that gives nothing more to read and takes all that is written.

* `ReadReply`, `WriteReply`, `FlushReply` : the answers;
* `Event` : what has happened on the streams, attempt by attempt;
* `Streams` : the queues and the events so far; `Streams.output`, `Streams.consumed` : what the events add up to;
* `Streams.read`, `Streams.write`, `Streams.flush` : the operations. Interrupted reads and writes are tried again.
-/

namespace Bracketry

inductive ReadReply where
  | byte (value : UInt8)
  /-- Nothing: the end of the input, as far as this attempt can tell. -/
  | nothing
  | fault (fault : StreamFault)
deriving DecidableEq, Repr

inductive WriteReply where
  | accepted
  | nothing
  | fault (fault : StreamFault)
deriving DecidableEq, Repr

inductive FlushReply where
  | done
  | fault (fault : StreamFault)
deriving DecidableEq, Repr

inductive Event where
  | read (reply : ReadReply)
  | write (value : UInt8) (reply : WriteReply)
  | flush (reply : FlushReply)
deriving DecidableEq, Repr

def Event.byteRead? : Event → Option UInt8
  | .read (.byte value) => some value
  | _ => none

def Event.byteWritten? : Event → Option UInt8
  | .write value .accepted => some value
  | _ => none

structure Streams where
  reads : List ReadReply := []
  writes : List WriteReply := []
  flushes : List FlushReply := []
  /-- The attempts so far, latest first. -/
  log : List Event := []
deriving DecidableEq, Repr

namespace Streams

def ofInput (input : List UInt8) : Streams := { reads := input.map .byte }

/-- The attempts so far, in order. -/
def events (streams : Streams) : List Event := streams.log.reverse

def output (streams : Streams) : List UInt8 := streams.events.filterMap Event.byteWritten?

def consumed (streams : Streams) : Nat := (streams.events.filterMap Event.byteRead?).length

/-- Flushes the output. An interruption is a failure. -/
def flush (streams : Streams) : Except StreamFault Unit × Streams :=
  match streams.flushes with
  | [] => (.ok (), { streams with log := .flush .done :: streams.log })
  | reply :: flushes =>
    let result := match reply with
      | .done => .ok ()
      | .fault fault => .error fault
    (result, { streams with flushes, log := .flush reply :: streams.log })

/-- Reads one byte, with `replies` for the queue; the end of the input reads as zero. -/
def readFrom (streams : Streams) : List ReadReply → Except StreamFault UInt8 × Streams
  | [] => (.ok 0, { streams with reads := [], log := .read .nothing :: streams.log })
  | reply :: reads =>
    let streams := { streams with reads, log := .read reply :: streams.log }
    match reply with
    | .byte value => (.ok value, streams)
    | .nothing | .fault .unexpectedEnd => (.ok 0, streams)
    | .fault .interrupted => streams.readFrom reads
    | .fault fault => (.error fault, streams)

def read (streams : Streams) : Except StreamFault UInt8 × Streams := streams.readFrom streams.reads

def writeFrom (value : UInt8) (streams : Streams) : List WriteReply → Except StreamFault Unit × Streams
  | [] => (.ok (), { streams with writes := [], log := .write value .accepted :: streams.log })
  | reply :: writes =>
    let streams := { streams with writes, log := .write value reply :: streams.log }
    match reply with
    | .accepted => (.ok (), streams)
    | .nothing => (.error .nothingWritten, streams)
    | .fault .interrupted => writeFrom value streams writes
    | .fault fault => (.error fault, streams)

def write (value : UInt8) (streams : Streams) : Except StreamFault Unit × Streams :=
  writeFrom value streams streams.writes

end Streams

end Bracketry
