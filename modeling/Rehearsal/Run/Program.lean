/-! Programs that leave their effects to others: a program asks for something to be done and goes on
with the answer. What can be asked, and what the answer to each request is, are parameters. -/

namespace Rehearsal
set_option autoImplicit false

universe u v

inductive Program {R : Type} (Answer : R → Type) (α : Type u) where
  | done (a : α)
  | ask (r : R) (next : Answer r → Program Answer α)

namespace Program

variable {R : Type} {Answer : R → Type} {α : Type u} {β : Type v}

def bind : Program Answer α → (α → Program Answer β) → Program Answer β
  | done a, f => f a
  | ask r next, f => ask r fun x => bind (next x) f

instance : Monad (Program Answer) where
  pure := done
  bind := bind

def request (r : R) : Program Answer (Answer r) := ask r done

@[simp] theorem pure_eq_done (a : α) : (pure a : Program Answer α) = done a := rfl

@[simp] theorem done_bind {α β : Type u} (a : α) (f : α → Program Answer β) :
    (done a : Program Answer α) >>= f = f a := rfl

@[simp] theorem ask_bind {α β : Type u} (r : R) (next : Answer r → Program Answer α)
    (f : α → Program Answer β) :
    (ask r next : Program Answer α) >>= f = ask r fun x => next x >>= f := rfl

theorem bind_done {α : Type u} (p : Program Answer α) : p >>= done = p := by
  induction p with
  | done a => rfl
  | ask r next ih => exact congrArg (ask r) (funext ih)

theorem bind_assoc {α β γ : Type u} (p : Program Answer α) (f : α → Program Answer β)
    (g : β → Program Answer γ) : (p >>= f) >>= g = p >>= fun a => f a >>= g := by
  induction p with
  | done a => rfl
  | ask r next ih => exact congrArg (ask r) (funext ih)

instance : LawfulMonad (Program Answer) :=
  LawfulMonad.mk' (Program Answer) bind_done (fun _ _ => rfl) bind_assoc

/-- Runs a program by giving each of its requests to `serve`, which may keep a state. -/
def runWith {σ : Type} (serve : (r : R) → σ → Answer r × σ) : Program Answer α → σ → α × σ
  | done a, s => (a, s)
  | ask r next, s =>
    let (x, s) := serve r s
    runWith serve (next x) s

theorem runWith_bind {α β : Type u} {σ : Type} (serve : (r : R) → σ → Answer r × σ)
    (p : Program Answer α) (f : α → Program Answer β) (s : σ) :
    (p >>= f).runWith serve s =
      let (a, s) := p.runWith serve s
      (f a).runWith serve s := by
  induction p generalizing s with
  | done a => rfl
  | ask r next ih => exact ih _ _

/-- Runs a program for as long as `serve` answers. Where it has no answer the program never comes to its
end; the state is then what it had come to. -/
def runWhile {σ : Type} (serve : (r : R) → σ → Option (Answer r × σ)) :
    Program Answer α → σ → Option α × σ
  | done a, s => (some a, s)
  | ask r next, s =>
    match serve r s with
    | some (x, s) => runWhile serve (next x) s
    | none => (none, s)

end Program
end Rehearsal
