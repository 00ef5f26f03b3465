/-! Computations that log: a result, or an error, and the lines that were logged on the way. What was
logged before a failure stays. -/
set_option autoImplicit false

namespace RunningTotal.Log

structure Logged (ε α : Type) where
  result : Except ε α
  lines : List String

namespace Logged

variable {ε δ α β : Type}

def pure (a : α) : Logged ε α := ⟨.ok a, []⟩

def fail (e : ε) : Logged ε α := ⟨.error e, []⟩

def ofExcept (x : Except ε α) : Logged ε α := ⟨x, []⟩

def bind (x : Logged ε α) (f : α → Logged ε β) : Logged ε β :=
  match x.result with
  | .ok a =>
    let y := f a
    ⟨y.result, x.lines ++ y.lines⟩
  | .error e => ⟨.error e, x.lines⟩

instance : Monad (Logged ε) where
  pure := pure
  bind := bind

def mapError (f : ε → δ) (x : Logged ε α) : Logged δ α := ⟨x.result.mapError f, x.lines⟩

theorem bind_ok {x : Logged ε α} {a : α} (h : x.result = .ok a) (f : α → Logged ε β) :
    x.bind f = ⟨(f a).result, x.lines ++ (f a).lines⟩ := by simp only [bind, h]

theorem bind_error {x : Logged ε α} {e : ε} (h : x.result = .error e) (f : α → Logged ε β) :
    x.bind f = ⟨.error e, x.lines⟩ := by simp only [bind, h]

theorem bind_assoc {γ : Type} (x : Logged ε α) (f : α → Logged ε β) (g : β → Logged ε γ) :
    (x.bind f).bind g = x.bind fun a => (f a).bind g := by
  obtain ⟨result, lines⟩ := x
  cases result with
  | error e => rfl
  | ok a => cases h : (f a).result <;> simp [bind, h]

theorem pure_bind (a : α) (f : α → Logged ε β) : (pure a).bind f = f a := by simp [bind, pure]

theorem bind_pure (x : Logged ε α) : x.bind pure = x := by
  obtain ⟨result, lines⟩ := x
  cases result <;> simp [bind, pure]

instance : LawfulMonad (Logged ε) := .mk' _ bind_pure pure_bind bind_assoc

end Logged

end RunningTotal.Log
