import SidepoolFormal.Library.Effect
import SidepoolFormal.Library.Run

/-!
# Code that gives control away

What a function on a stack still does, when it calls last whatever it calls: it
returns, throws, runs a body in a try block, or asks for an operation whose
result it goes on with.  An operation is not in the code's hands.  It may
complete before it returns, and what goes on with the result is then on top of
it and of every try block that is open; or it may return first and complete
later, on an empty stack.
-/

namespace SidepoolFormal.Library

inductive Proc (Op : Type) (Ans : Op → Type) (E : Type) where
  | ret
  | throw (e : E)
  | attempt (body : Proc Op Ans E) (handler : E → Proc Op Ans E)
  | ask (op : Op) (k : Except E (Ans op) → Proc Op Ans E)

namespace Proc

variable {Op : Type} {Ans : Op → Type} {E : Type}

/-! ## Where code comes to rest -/

/-- An open try block: one of the code, or one that an operation has around
what goes on with its result. -/
inductive Try (Op : Type) (Ans : Op → Type) (E : Type) where
  | code (handler : E → Proc Op Ans E)
  | prim (op : Op) (k : Except E (Ans op) → Proc Op Ans E)

/-- The code asks for an operation, inside some try blocks, or waits for one
that has returned; or it has returned, or thrown what nobody caught. -/
inductive Stop (Op : Type) (Ans : Op → Type) (E : Type) where
  | asks (op : Op) (k : Except E (Ans op) → Proc Op Ans E) (tries : List (Try Op Ans E))
  | waits (op : Op) (k : Except E (Ans op) → Proc Op Ans E)
  | done
  | escaped (e : E)

/-- What a piece of code comes to by itself. -/
inductive Head (Op : Type) (Ans : Op → Type) (E : Type) where
  | ret
  | throw (e : E)
  | asks (op : Op) (k : Except E (Ans op) → Proc Op Ans E) (tries : List (Try Op Ans E))

def head : Proc Op Ans E → Head Op Ans E
  | .ret => .ret
  | .throw e => .throw e
  | .ask op k => .asks op k []
  | .attempt body handler =>
      match body.head with
      | .ret => .ret
      | .throw e => (handler e).head
      | .asks op k tries => .asks op k (tries ++ [.code handler])

/-- An exception unwinds the stack to the innermost try block.  An operation
that catches it has control again. -/
def unwind : List (Try Op Ans E) → E → Stop Op Ans E
  | [], e => .escaped e
  | .prim op k :: tries, _ => .asks op k tries
  | .code handler :: tries, e =>
      match (handler e).head with
      | .ret => .done
      | .throw e => unwind tries e
      | .asks op k inner => .asks op k (inner ++ tries)

/-- Run code inside try blocks. -/
def settle (p : Proc Op Ans E) (tries : List (Try Op Ans E)) : Stop Op Ans E :=
  match p.head with
  | .ret => .done
  | .throw e => unwind tries e
  | .asks op k inner => .asks op k (inner ++ tries)

@[simp]
theorem settle_ret (tries : List (Try Op Ans E)) : settle .ret tries = .done := rfl

@[simp]
theorem settle_throw (e : E) (tries : List (Try Op Ans E)) :
    settle (.throw e) tries = unwind tries e := rfl

@[simp]
theorem settle_ask (op : Op) (k : Except E (Ans op) → Proc Op Ans E)
    (tries : List (Try Op Ans E)) : settle (.ask op k) tries = .asks op k tries := rfl

@[simp]
theorem settle_attempt (body : Proc Op Ans E) (handler : E → Proc Op Ans E)
    (tries : List (Try Op Ans E)) :
    settle (.attempt body handler) tries = settle body (.code handler :: tries) := by
  rw [settle, settle, head]
  cases body.head with
  | ret => rfl
  | throw e => rfl
  | asks op k inner => simp

@[simp]
theorem unwind_nil (e : E) : unwind ([] : List (Try Op Ans E)) e = .escaped e := rfl

@[simp]
theorem unwind_prim (op : Op) (k : Except E (Ans op) → Proc Op Ans E)
    (tries : List (Try Op Ans E)) (e : E) : unwind (.prim op k :: tries) e = .asks op k tries := rfl

@[simp]
theorem unwind_code (handler : E → Proc Op Ans E) (tries : List (Try Op Ans E)) (e : E) :
    unwind (.code handler :: tries) e = settle (handler e) tries := rfl

/-! ## What operations do -/

/-- An operation completes before it returns, throws, or returns and completes
later.  A guarded completion has a try block of the operation around it. -/
inductive Event (Op : Type) (Ans : Op → Type) (E : Type) where
  | now (op : Op) (r : Except E (Ans op)) (guarded : Bool)
  | raises (op : Op) (e : E)
  | later (op : Op)
  | resumed (op : Op) (r : Except E (Ans op)) (guarded : Bool)
  | enters (op : Op)

def guard (op : Op) (k : Except E (Ans op) → Proc Op Ans E) (guarded : Bool) :
    List (Try Op Ans E) := if guarded then [.prim op k] else []

@[simp]
theorem guard_false (op : Op) (k : Except E (Ans op) → Proc Op Ans E) : guard op k false = [] := rfl

/-- `body` has the operations that are code themselves. -/
inductive Step (body : (op : Op) → Option ((Except E (Ans op) → Proc Op Ans E) → Proc Op Ans E)) :
    Stop Op Ans E → Event Op Ans E → Stop Op Ans E → Prop
  | now {op : Op} {k : Except E (Ans op) → Proc Op Ans E} {tries : List (Try Op Ans E)}
      (foreign : body op = none) (r : Except E (Ans op)) (guarded : Bool) :
      Step body (.asks op k tries) (.now op r guarded) (settle (k r) (guard op k guarded ++ tries))
  | raises {op : Op} {k : Except E (Ans op) → Proc Op Ans E} {tries : List (Try Op Ans E)}
      (foreign : body op = none) (e : E) :
      Step body (.asks op k tries) (.raises op e) (unwind tries e)
  | later {op : Op} {k : Except E (Ans op) → Proc Op Ans E} {tries : List (Try Op Ans E)}
      (foreign : body op = none) : Step body (.asks op k tries) (.later op) (.waits op k)
  | resumed {op : Op} {k : Except E (Ans op) → Proc Op Ans E} (r : Except E (Ans op))
      (guarded : Bool) :
      Step body (.waits op k) (.resumed op r guarded) (settle (k r) (guard op k guarded))
  | enters {op : Op} {k : Except E (Ans op) → Proc Op Ans E} {tries : List (Try Op Ans E)}
      {code : (Except E (Ans op) → Proc Op Ans E) → Proc Op Ans E} (own : body op = some code) :
      Step body (.asks op k tries) (.enters op) (settle (code k) tries)

/-! ## Code whose operations complete at once -/

variable {σ : Type}

def exec (perform : (op : Op) → Effect σ E (Except E (Ans op))) : Proc Op Ans E → Effect σ E Unit
  | .ret => pure ()
  | .throw e => MonadExcept.throw e
  | .attempt body handler => tryCatch (exec perform body) fun e => exec perform (handler e)
  | .ask op k => do
      let r ← perform op
      exec perform (k r)

end Proc

end SidepoolFormal.Library
