import Netramesh.Lib.Flow
import Netramesh.Lib.Pool
import Netramesh.Lib.System
import Netramesh.Lib.Window
import Netramesh.Transport.Destination

/-!
# The pools behind the connections

The other modules give every connection buffers of its own. In the program they
come out of six pools which all goroutines share, and what a pool hands out is
what somebody put there, in the state it was put: with old bytes in its memory,
a reader with unread bytes, a writer with unflushed ones or with an error that
sticks, both of them still attached to a connection of their former user.

Here the goroutines are small programs over such objects. What is written out is
all that concerns the pools: which variable is filled from which pool where,
what is reset and truncated, what is put back on which way out, and in which
order the deferred calls run. What is read, parsed, decided and written between
is left open. A `Script` stands for any code that drives the objects through
their operations, every choice it makes being a function of all it has seen.
-/

namespace Netramesh.Pooled

open Lib Function

/-! ## Objects -/

/-- The pools of `http.go`, `tempbuffer.go`, `handler.go` and `transfer.go`. -/
inductive Pool
  | tempWriterBufferPool
  | readerPool
  | writerPool
  | bufferPool
  | httpBufferPool
  | addrPool
  deriving DecidableEq

/-- The variables that hold what came out of a pool. -/
inductive Slot
  | tmpWriter
  | bufioHTTPReader
  | bufioWriter
  | buf
  | bodyBuf
  | ipBuilder
  | dstAddrBuilder
  deriving DecidableEq

def Slot.pool : Slot → Pool
  | .tmpWriter => .tempWriterBufferPool
  | .bufioHTTPReader => .readerPool
  | .bufioWriter => .writerPool
  | .buf => .bufferPool
  | .bodyBuf => .httpBufferPool
  | .ipBuilder | .dstAddrBuilder => .addrPool

/-- A buffer in memory. A `bufio.Reader` or `bufio.Writer` also has an error and
a connection, which is one of the connections of some goroutine; a reader is
attached through the tee, which writes to the temp writer of that goroutine. -/
structure Buffer (G : Type) where
  win : Window UInt8
  failed : Bool
  peer : Option (G × Nat)

/-- How much memory a new object comes with. -/
def Pool.size : Pool → Nat
  | .tempWriterBufferPool => 0
  | .readerPool | .writerPool => 0xfff
  | .bufferPool | .httpBufferPool => 0xffff
  | .addrPool => 20

/-- `New`. A new reader or writer is attached to no connection, but to
`dumbReader` or `dumbWriter`. -/
def Pool.new {G : Type} (p : Pool) : Buffer G where
  win := .ofMem (List.replicate p.size 0)
  failed := false
  peer := none

/-! ## What a goroutine sees and does -/

/-- What an operation answers. -/
inductive Obs
  | done
  | bytes (b : Bytes)
  | count (n : Nat)
  | failed

/-- All that was answered so far, the latest first. -/
abbrev Hist := List Obs

/-- The bytes answered last. -/
def Hist.last : Hist → Bytes
  | .bytes b :: _ => b
  | _ => []

/-- Operations on one object. -/
inductive Edit
  /-- `append`, or `Write` of a `bytes.Buffer`. -/
  | append (b : Hist → Bytes)
  /-- `Truncate(0)`, or `[:0]`. -/
  | clear
  /-- `Reset` of a reader or a writer. -/
  | reset
  /-- Look at what is buffered. -/
  | look
  /-- Take from the front of what is buffered. -/
  | take (n : Hist → Nat)
  /-- `UnreadByte`. -/
  | unread (c : Hist → UInt8)
  /-- `Read` into a copy buffer. -/
  | load (b : Hist → Bytes)
  /-- The part of a writer's `Write` that copies into its buffer. -/
  | stash (b : Hist → Bytes)
  /-- `Available`. -/
  | available
  /-- `readErr` of a reader: an error is reported once. -/
  | readErr

/-- The operations. -/
inductive Op
  | edit (k : Slot) (e : Edit)
  /-- `fill` of the reader. -/
  | fill
  /-- `Read` past the buffer of the reader. -/
  | pull
  /-- `Flush` of the writer. -/
  | flush
  /-- `Write` past the buffer of the writer. -/
  | through (b : Hist → Bytes)
  /-- `r.Read`, without the tee. -/
  | recv
  /-- `w.Write`. -/
  | send (b : Hist → Bytes)
  /-- `Start` of the temp writer, and the first half of its `Stop`. -/
  | setStopped (b : Bool)
  /-- Ask what is not on this side: a cache, a queue, a channel. -/
  | ask
  /-- `w = <-connCh`. -/
  | dial

/-- The actions of a program. -/
inductive Atom
  | get (k : Slot)
  | put (k : Slot)
  | op (o : Op)

/-- The programs the goroutines run. -/
abbrev Prog := Cmd Atom Hist

/-- What a goroutine has to itself: `stopped` is the field of its `TempWriter`,
`input` what `r` will still deliver, `output` what its connections `w` took, by
their numbers. -/
structure Loc where
  todo : List Prog
  deferred : Prog
  stopped : Bool
  input : Bytes
  w : Nat
  output : List (Nat × Bytes)
  seen : Hist

/-- A goroutine. A variable keeps its object after the object was put back;
`held` says which objects were taken and not put back yet. -/
structure User where
  loc : Loc
  var : Slot → Option Nat
  held : Slot → Option Nat

structure State (G : Type) where
  store : Store Pool (Buffer G)
  user : G → User

variable {G : Type} [DecidableEq G]

/-- What the surroundings decide about one step: where in the pool `Get` finds
an object, how many bytes a read or a write gets, what is answered. -/
structure Label where
  pick : Option Nat
  n : Nat
  answer : Obs

namespace State

def setLoc (g : G) (f : Loc → Loc) (s : State G) : State G :=
  { s with user := update s.user g { s.user g with loc := f (s.user g).loc } }

def setObj (r : Nat) (o : Buffer G) (s : State G) : State G :=
  { s with store := s.store.set r o }

end State

/-! ## Operations -/

/-- An operation on one object, by goroutine `g` at its `w`-th target. -/
def Edit.apply (g : G) (w : Nat) (h : Hist) : Edit → Buffer G → Buffer G × Obs
  | .append b, o => ({ o with win := o.win.push (b h) }, .done)
  | .clear, o => ({ o with win := o.win.clear }, .done)
  | .reset, o => (⟨o.win.clear, false, some (g, w)⟩, .done)
  | .look, o => (o, .bytes o.win.live)
  | .take n, o => ({ o with win := o.win.skip (n h) },
      .bytes (o.win.live.take (n h)))
  | .unread c, o => ({ o with win := o.win.back (c h) }, .done)
  | .load b, o => ({ o with win := o.win.load (b h) }, .done)
  | .stash b, o =>
    let p := (b h).take (o.win.size - o.win.top)
    ({ o with win := o.win.push p }, .count p.length)
  | .available, o => (o, .count (o.win.size - o.win.top))
  | .readErr, o => ({ o with failed := false },
      if o.failed then .failed else .done)

namespace State

/-- `io.TeeReader` passes `p` on to the temp writer of `h`. -/
def tee (h : G) (p : Bytes) (s : State G) : Option (State G) :=
  if (s.user h).loc.stopped then some s
  else
    match (s.user h).var .tmpWriter with
    | none => none
    | some r =>
      let o := s.store.heap r
      some (s.setObj r { o with win := o.win.push p })

/-- Read at most `n` bytes of the connection of `h`, through the tee. -/
def receive (h : G) (n : Nat) (s : State G) : Option (Bytes × State G) :=
  let p := (s.user h).loc.input.take n
  match (s.setLoc h fun l => { l with input := l.input.drop n }).tee h p with
  | none => none
  | some s => some (p, s)

/-- `fill`. The surroundings say how much of the free room is used; nothing read
is an error, which may be that the connection ended or was closed. -/
def fill (g : G) (n : Nat) (s : State G) : Option (Obs × State G) :=
  match (s.user g).var .bufioHTTPReader with
  | none => none
  | some r =>
    let o := s.store.heap r
    match o.peer with
    | none => some (.failed, s.setObj r { o with failed := true })
    | some (h, _) =>
      let win := o.win.slide
      match s.receive h (min n (win.size - win.top)) with
      | none => none
      | some (p, s) =>
        if p.isEmpty then some (.failed,
          s.setObj r { o with win := win, failed := true })
        else some (.count p.length, s.setObj r { o with win := win.push p })

/-- A read that bypasses the buffer. -/
def pull (g : G) (n : Nat) (s : State G) : Option (Obs × State G) :=
  match (s.user g).var .bufioHTTPReader with
  | none => none
  | some r =>
    match (s.store.heap r).peer with
    | none => some (.failed, s)
    | some (h, _) =>
      match s.receive h n with
      | none => none
      | some (p, s) => some (if p.isEmpty then .failed else .bytes p, s)

/-- The `j`-th target of `h` takes `p`. -/
def emit (h : G) (j : Nat) (p : Bytes) (s : State G) : State G :=
  s.setLoc h fun l => { l with output := l.output ++ [(j, p)] }

/-- `Flush`. What a failed write did not take stays, and so does the error. -/
def flush (g : G) (n : Nat) (s : State G) : Option (Obs × State G) :=
  match (s.user g).var .bufioWriter with
  | none => none
  | some r =>
    let o := s.store.heap r
    if o.failed then some (.failed, s)
    else
      match o.peer with
      | none => some (.done, s.setObj r { o with win := o.win.clear })
      | some (h, j) =>
        let p := o.win.live
        if p.length ≤ n then
          some (.done, (s.emit h j p).setObj r { o with win := o.win.clear })
        else
          some (.failed, (s.emit h j (p.take n)).setObj r
            { o with win := (o.win.skip n).slide, failed := true })

/-- A write that bypasses the buffer. -/
def through (g : G) (n : Nat) (b : Bytes) (s : State G) :
    Option (Obs × State G) :=
  match (s.user g).var .bufioWriter with
  | none => none
  | some r =>
    let o := s.store.heap r
    if o.failed then some (.failed, s)
    else
      match o.peer with
      | none => some (.count b.length, s)
      | some (h, j) =>
        some (.count (b.take n).length,
          (s.emit h j (b.take n)).setObj r { o with
            failed := decide (n < b.length) })

end State

/-- An operation of `g`, and what it answers. -/
def Op.run (g : G) (l : Label) (s : State G) : Op → Option (Obs × State G)
  | .edit k e =>
    match (s.user g).var k with
    | none => none
    | some r =>
      let a := e.apply g (s.user g).loc.w (s.user g).loc.seen (s.store.heap r)
      some (a.2, s.setObj r a.1)
  | .fill => s.fill g l.n
  | .pull => s.pull g l.n
  | .flush => s.flush g l.n
  | .through b => s.through g l.n (b (s.user g).loc.seen)
  | .recv =>
    let p := (s.user g).loc.input.take l.n
    some (if p.isEmpty then .failed else .bytes p,
      s.setLoc g fun u => { u with input := u.input.drop l.n })
  | .send b =>
    let p := (b (s.user g).loc.seen).take l.n
    some (.count p.length, s.emit g (s.user g).loc.w p)
  | .setStopped b => some (.done, s.setLoc g fun u => { u with stopped := b })
  | .ask => some (l.answer, s)
  | .dial => some (l.answer, s.setLoc g fun u => { u with w := u.w + 1 })

/-! ## Steps -/

namespace State

/-- `g` goes on with `todo`. -/
def goto (g : G) (todo : List Prog) (s : State G) : State G :=
  s.setLoc g fun l => { l with todo := todo }

/-- `g` has seen `a` and goes on with `todo`. -/
def observe (g : G) (a : Obs) (todo : List Prog) (s : State G) : State G :=
  s.setLoc g fun l => { l with todo := todo, seen := a :: l.seen }

/-- `g` runs one operation. -/
def operate (g : G) (l : Label) (o : Op) (todo : List Prog) (s : State G) :
    Option (State G) :=
  match o.run g l s with
  | none => none
  | some (a, s) => some (s.observe g a todo)

/-- `k = pool.Get()`. -/
def take (g : G) (l : Label) (k : Slot) (todo : List Prog) (s : State G) :
    Option (State G) :=
  match s.store.get k.pool.new k.pool l.pick with
  | none => none
  | some (r, store) =>
    let u := s.user g
    some { store := store
           user := update s.user g
            { loc := { u.loc with todo := todo }
              var := update u.var k (some r)
              held := update u.held k (some r) } }

/-- `pool.Put(k)`. -/
def release (g : G) (k : Slot) (todo : List Prog) (s : State G) :
    Option (State G) :=
  match (s.user g).var k with
  | none => none
  | some r =>
    let u := s.user g
    some { store := s.store.put k.pool r
           user := update s.user g
            { u with loc := { u.loc with
              todo := todo }, held := update u.held k none } }

/-- The next step of `g`, as its program says. -/
def advance (g : G) (l : Label) (s : State G) : Next Atom Hist →
    Option (State G)
  | .goto todo => some (s.goto g todo)
  | .act (.get k) todo => s.take g l k todo
  | .act (.put k) todo => s.release g k todo
  | .act (.op o) todo => s.operate g l o todo
  | .leave =>
      some (s.setLoc g fun l => { l with
        todo := [l.deferred], deferred := .skip })

end State

/-- What can happen: a step of a goroutine, or an object vanishing from a
pool. -/
inductive Act (G : Type)
  | run (g : G) (l : Label)
  | drop (p : Pool) (i : Nat)

def step (s : State G) : Act G → Option (State G)
  | .drop p i => some { s with store := s.store.drop p i }
  | .run g l =>
    match (s.user g).loc.todo with
    | [] => none
    | c :: todo => s.advance g l (c.next (s.user g).loc.seen todo)

/-! ## Code that is left open -/

open Cmd

def get (k : Slot) : Prog := .act (.get k)

def put (k : Slot) : Prog := .act (.put k)

def op (o : Op) : Prog := .act (.op o)

/-- Code that runs operations for as long as it likes: which comes next, and
with what arguments, is up to what it has seen. -/
structure Script where
  more : Hist → Bool
  choose : Hist → Nat
  amount : Hist → Nat
  byte : Hist → UInt8
  bytes : Hist → Bytes

/-- Any run of these operations. -/
def Script.run (S : Script) (os : List Op) : Prog :=
  .loop S.more (.any (os.map .op) S.choose)

/-- What can be done with the reader. -/
def Script.reads (S : Script) : List Op :=
  [.fill, .pull, .edit .bufioHTTPReader .look,
    .edit .bufioHTTPReader (.take S.amount),
    .edit .bufioHTTPReader (.unread S.byte), .edit .bufioHTTPReader .readErr]

/-- What can be done with the writer. -/
def Script.writes (S : Script) : List Op :=
  [.edit .bufioWriter (.stash S.bytes), .edit .bufioWriter .available,
    .through S.bytes, .flush]

/-- `io.CopyBuffer` with the buffer in `k`. A round reads from the source, which
leaves what it got in the buffer from its start on, and writes that part of the
buffer to the destination. A source or a destination that knows better
(`direct`) never touches the buffer. -/
def copyBuffer (k : Slot) (S : Script) (direct : Hist → Bool)
    (src dst : List Op) : Prog :=
  .loop S.more (block
    [S.run src,
      .ite direct .skip (block [op (.edit k (.load S.bytes)),
        op (.edit k .look)]),
      S.run dst])

/-- A copy with a buffer that is taken for it and put back behind it. -/
def pooledCopy (k : Slot) (S : Script) (direct : Hist → Bool)
    (src dst : List Op) : Prog :=
  block [get k, copyBuffer k S direct src dst, put k]

/-! ## `TempWriter` -/

/-- `NewTempWriter`. -/
def newTempWriter : Prog := block [get .tmpWriter, op (.setStopped false)]

/-- `Start`. -/
def start : Prog := op (.setStopped false)

/-- `Stop`. -/
def stop : Prog := block [op (.setStopped true), op (.edit .tmpWriter .clear)]

/-- `Close`. -/
def close : Prog := block [op (.edit .tmpWriter .clear), put .tmpWriter]

/-! ## Writing a message on -/

/-- How a message is written: its head, its body and what comes after it. With a
counted body, what is left of the body after the copy is read and dropped,
unless the copy failed. -/
structure Writing where
  head : Script
  hasBody : Hist → Bool
  counted : Hist → Bool
  failed : Hist → Bool
  copy : Script
  rest : Script
  direct : Hist → Bool
  tail : Script

/-- `transferWriter.writeBody`, up to the closing of the body. -/
def Writing.writeBody (M : Writing) (dst : List Op) : Prog :=
  .ite M.hasBody
    (block
      [pooledCopy .bodyBuf M.copy M.direct M.copy.reads dst,
        .ite M.counted
          (.ite M.failed .skip (pooledCopy .bodyBuf M.rest M.direct
            M.rest.reads []))
          .skip])
    .skip

/-- `Request.Write` or `Response.Write` to the writer. -/
def Writing.write (M : Writing) : Prog :=
  block [M.head.run (M.head.writes ++ [.ask]), M.writeBody M.copy.writes,
    M.tail.run (M.tail.reads ++ M.tail.writes)]

/-- `Response.Write` to the connection itself. -/
def Writing.writeDirect (M : Writing) : Prog :=
  block [M.head.run [.send M.head.bytes], M.writeBody [.send M.copy.bytes],
    M.tail.run (M.tail.reads ++ [.send M.tail.bytes])]

/-- Through a writer from the pool. -/
def Writing.forward (M : Writing) : Prog :=
  block [get .bufioWriter, op (.edit .bufioWriter .reset), M.write, op .flush,
    put .bufioWriter]

/-! ## The handlers -/

/-- What is open in a round of the HTTP handlers. `quit` returns without a word;
`asks` are the lookups and the exchange of addresses and connections, after
which there may be no target (`noTarget`); `giveUp` goes over to plain copying;
`head` says that the answer is to a HEAD request. -/
structure HTTPRound where
  parse : Script
  quit : Hist → Bool
  asks : Script
  noTarget : Hist → Bool
  giveUp : Hist → Bool
  copyTmp : Script
  copyRest : Script
  direct : Hist → Bool
  edits : Script
  head : Hist → Bool
  message : Writing

/-- The loop both handlers are. -/
def handleHTTP (R : HTTPRound) (target giveUp forward : Prog) : Prog :=
  block
    [newTempWriter, get .bufioHTTPReader, op (.edit .bufioHTTPReader .reset),
      .loop (fun _ => true) (block
        [start, R.parse.run R.parse.reads, .ite R.quit .ret .skip, target,
          .ite R.giveUp (block [giveUp, .ret]) .skip, stop, R.edits.run [.ask],
            forward])]

/-- The deferred calls, the last first: the reader is put back before the temp
writer is closed. -/
def deferredHTTP : Prog := block [put .bufioHTTPReader, close]

/-- `HandleRequest` of the HTTP handler. -/
def handleRequest (R : HTTPRound) : Prog :=
  handleHTTP R
    (block [R.asks.run [.ask, .dial], .ite R.noTarget .ret .skip])
    (block
      [pooledCopy .buf R.copyTmp R.direct
        [.edit .tmpWriter (.take R.copyTmp.amount)]
          [.send R.copyTmp.bytes],
        stop,
        pooledCopy .buf R.copyRest R.direct R.copyRest.reads
          [.send R.copyRest.bytes]])
    R.message.forward

/-- `HandleResponse` of the HTTP handler. `io.Copy` has no buffer from a
pool. -/
def handleResponse (R : HTTPRound) : Prog :=
  handleHTTP R .skip
    (block
      [R.copyTmp.run [.edit .tmpWriter (.take R.copyTmp.amount),
        .send R.copyTmp.bytes], stop,
        R.copyRest.run (R.copyRest.reads ++ [.send R.copyRest.bytes])])
    (.ite R.head R.message.writeDirect R.message.forward)

/-- `HandleResponse` of the TCP handler. -/
def handleTCPResponse (S : Script) (direct : Hist → Bool) : Prog :=
  pooledCopy .buf S direct [.recv] [.send S.bytes]

/-- `HandleRequest` of the TCP handler, which may have to wait for its
target. -/
def handleTCPRequest (asks : Script) (noTarget : Hist → Bool) (S : Script)
    (direct : Hist → Bool) : Prog :=
  block
    [asks.run [.ask, .dial], .ite noTarget .ret .skip,
      pooledCopy .buf S direct [.recv] [.send S.bytes]]

/-- A slice from the pool is appended to, made a string of, and put back
empty. -/
def buildAddr (k : Slot) (parts : List (Hist → Bytes)) : Prog :=
  block
    [get k, block (parts.map fun b => op (.edit k (.append b))),
      op (.edit k .look), op (.edit k .clear), put k]

/-- The part of `HandleConnection` that builds `originalDstAddr`. The string
made of the first slice is the last answer but one when the second is begun. -/
def handleConnection (m : Transport.Multiaddr) : Prog :=
  block
    [buildAddr .ipBuilder
        [fun _ => itoa m.a.toNat, fun _ => [46], fun _ => itoa m.b.toNat,
          fun _ => [46],
          fun _ => itoa m.c.toNat, fun _ => [46], fun _ => itoa m.d.toNat],
      buildAddr .dstAddrBuilder
        [fun h => Hist.last h.tail, fun _ => [58], fun _ => itoa m.port.toNat]]

/-- What a goroutine was started for. -/
inductive Task
  | connection (m : Transport.Multiaddr)
  | request (R : HTTPRound)
  | response (R : HTTPRound)
  | tcpRequest (asks : Script) (noTarget : Hist → Bool) (S : Script)
      (direct : Hist → Bool)
  | tcpResponse (S : Script) (direct : Hist → Bool)

def Task.body : Task → Prog
  | .connection m => handleConnection m
  | .request R => handleRequest R
  | .response R => handleResponse R
  | .tcpRequest asks noTarget S direct =>
      handleTCPRequest asks noTarget S direct
  | .tcpResponse S direct => handleTCPResponse S direct

def Task.deferred : Task → Prog
  | .connection _ | .tcpRequest .. | .tcpResponse .. => .skip
  | .request _ | .response _ => deferredHTTP

/-- Before anything happened: the pools are empty, no goroutine has an object,
and the connections have their bytes before them. -/
def init (task : G → Task) (input : G → Bytes) : State G where
  store := { heap := fun _ => Pool.new .addrPool, next := 0,
             free := fun _ => [] }
  user g :=
    { loc :=
        { todo := [(task g).body, .ret]
          deferred := (task g).deferred
          stopped := false
          input := input g
          w := 0
          output := []
          seen := [] }
      var := fun _ => none
      held := fun _ => none }

end Netramesh.Pooled
