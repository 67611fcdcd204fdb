import SidepoolFormal.Saver.Crud
import SidepoolFormal.Saver.Rmw

/-!
# `SaverWrapper`

How the answers of a C saver become values and exceptions, which error numbers
it may give for which request, and which exceptions the operations of a saver
are documented to throw.
-/

namespace SidepoolFormal.Saver

open Library

/-! ## Code -/

/-- The error numbers of the platform, which are distinct. -/
structure Cerrno where
  ENOENT : Int
  EEXIST : Int
  EPERM : Int
  ENOSPC : Int
  ECANCELED : Int
  EIO : Int
  distinct : [ENOENT, EEXIST, EPERM, ENOSPC, ECANCELED, EIO].Nodup

variable {V A : Type} (c : Cerrno)

def failErrno (myErrno : Int) : Exn :=
  if myErrno = c.ENOENT then .keyNotFound
  else if myErrno = c.EEXIST then .keyExists
  else if myErrno = c.EPERM then .wrongGeneration
  else if myErrno = c.ENOSPC then .outOfSpace
  else if myErrno = c.ECANCELED then .freed
  else .ioError

/-- A `libsidepool_saver_scan`: what its `get` returns, up to the null pointer. -/
abbrev Scan := List String

namespace ScanWrapper

/-- The loop of `readall`. -/
def readLoop (rv : List String) (scan : Scan) : List String :=
  match scan with
  | [] => rv
  | key2 :: rest => readLoop (rv ++ [key2]) rest

def readall : Option Scan → List String
  | none => []
  | some core => readLoop [] core

end ScanWrapper

/-- What comes back from outside: the C saver passes, with a scan object or not,
or fails; a user function raises. -/
inductive Reply where
  | passed
  | scanned (scan : Option Scan)
  | failed (myErrno : Int)
  | raised (e : Exn)
  deriving DecidableEq, Repr

/-- The error numbers that a request for an entry may be answered with.  A saver
that is freed answers all of them with `ECANCELED`. -/
def validErrno : Op V A → List Int
  | .create _ => [c.EEXIST, c.ECANCELED, c.EIO, c.ENOSPC]
  | .read => [c.ENOENT, c.ECANCELED, c.EIO]
  | .update _ _ => [c.ENOENT, c.EPERM, c.ECANCELED, c.EIO, c.ENOSPC]
  | .del _ => [c.ENOENT, c.EPERM, c.EIO, c.ENOSPC, c.ECANCELED]
  | .yield => []
  | .func _ => []
  | .again => []

/-- Those that a scan may be answered with; a key without entries may be
`ENOENT`. -/
def validScanErrno : List Int := [c.EIO, c.ECANCELED, c.ENOENT]

/-- The operation passes; the call itself is not one of the outside. -/
def passes : Op V A → List Reply
  | .yield => []
  | .func _ => []
  | .again => []
  | _ => [.passed]

/-- A request is answered.  The idler only passes. -/
inductive Answered : (op : Op V A) → List Reply → Except Exn op.Ans → Prop
  | passes {op : Op V A} (a : op.Ans) : Answered op (passes op) (.ok a)
  | fails {op : Op V A} {myErrno : Int} (valid : myErrno ∈ validErrno c op) :
      Answered op [.failed myErrno] (.error (failErrno c myErrno))
  | raises (content : A) (e : Exn) : Answered (.func content) [.raised e] (.error e)

/-- A call delivers its result, with these replies on the way. -/
inductive Delivers (program : Io V A A) : Io V A A → List Reply → Except Exn A → Prop
  | done (r : Except Exn A) : Delivers program (.done r) [] r
  | asks {op : Op V A} {k : Except Exn op.Ans → Io V A A} {a : Except Exn op.Ans}
      {now later : List Reply} {r : Except Exn A} (other : op ≠ .again)
      (answered : Answered c op now a) (rest : Delivers program (k a) later r) :
      Delivers program (.ask op k) (now ++ later) r
  | again {k : Except Exn A → Io V A A} {later : List Reply} {r : Except Exn A}
      (rest : Delivers program (program.continue_ k) later r) :
      Delivers program (.ask .again k) later r

/-! ## The operations -/

inductive Operation (V : Type) where
  | scan
  | create (value : V)
  | read
  | tryRead
  | update (generation : Nat) (value : V)
  | del (generation : Nat)
  | rmw
  | crud

@[reducible]
def Operation.Ret : Operation V → Type
  | .scan => List String
  | .create _ => Nat
  | .read => Nat × V
  | .tryRead => Option (Nat × V)
  | .update _ _ => Nat
  | .del _ => Unit
  | .rmw => V
  | .crud => Option V

/-- The documented exceptions, apart from what the given function throws. -/
def Operation.throws : Operation V → List Exn
  | .scan => [.freed, .ioError]
  | .create _ => [.freed, .keyExists, .ioError, .outOfSpace]
  | .read => [.freed, .keyNotFound, .ioError]
  | .tryRead => [.freed, .ioError]
  | .update _ _ => [.freed, .keyNotFound, .wrongGeneration, .ioError, .outOfSpace]
  | .del _ => [.freed, .keyNotFound, .wrongGeneration, .ioError, .outOfSpace]
  | .rmw => [.freed, .keyNotFound, .ioError, .outOfSpace]
  | .crud => [.freed, .ioError, .outOfSpace]

/-- A scan is answered. -/
inductive Scans : List Reply → Except Exn (List String) → Prop
  | passes (scan : Option Scan) : Scans [.scanned scan] (.ok (ScanWrapper.readall scan))
  | fails {myErrno : Int} (valid : myErrno ∈ validScanErrno c) :
      Scans [.failed myErrno] (.error (failErrno c myErrno))

/-- A run of an operation, with the replies on the way. -/
def Runs : (op : Operation V) → List Reply → Except Exn op.Ret → Prop
  | .scan => Scans c
  | .create value => Delivers c (create value) (create value)
  | .read => Delivers c read read
  | .tryRead => Delivers c tryRead tryRead
  | .update generation value => Delivers c (update generation value) (update generation value)
  | .del generation => Delivers c (del generation : Io V Unit Unit) (del generation)
  | .rmw => Delivers c rmw rmw
  | .crud => Delivers c crud crud

end SidepoolFormal.Saver
