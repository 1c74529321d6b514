import Mathlib.Tactic.Common

/-!
# Programs that stop at shared memory

A thread computes on its own state until it loads a word that another thread may
store to. There it stops: `ask s q k` is a program whose owner has published the
state `s`, loads the word `q` and goes on with `k` at whatever it finds. Between
two loads nothing another thread does can matter, so a run of several threads is
an interleaving of these steps.

`Holds I R P` is the rule for such programs: whatever the loads return, as long as
it satisfies `R`, every published state satisfies `I` and the result satisfies `P`.
`Follows` is the rule for what depends on the loads so far: a history that each load
moves on goes with the program.
-/

namespace Suspension

/-- A program over published states `S`, loads `Q` with answers `A`, and a result. -/
inductive Prog (S Q A β : Type) where
  | done (b : β)
  | ask (s : S) (q : Q) (k : A → Prog S Q A β)

namespace Prog

variable {S Q A β γ : Type}

/-- Run a program and go on with its result. -/
protected def bind (p : Prog S Q A β) (f : β → Prog S Q A γ) : Prog S Q A γ :=
  match p with
  | done b => f b
  | ask s q k => ask s q fun a => (k a).bind f

instance : Monad (Prog S Q A) where
  pure := done
  bind := Prog.bind

@[simp] theorem pure_eq (b : β) : (pure b : Prog S Q A β) = done b := rfl

@[simp] theorem done_bind (b : β) (f : β → Prog S Q A γ) : (done b >>= f) = f b := rfl

def load (s : S) (q : Q) : Prog S Q A A :=
  ask s q done

/-- Every published state satisfies `I` and the result satisfies `P`, whatever the
loads find within `R`. -/
def Holds (I : S → Prop) (R : Q → A → Prop) (P : β → Prop) : Prog S Q A β → Prop
  | done b => P b
  | ask s q k => I s ∧ ∀ a, R q a → Holds I R P (k a)

variable {I J : S → Prop} {R T : Q → A → Prop} {P U : β → Prop}

@[simp] theorem holds_ask {s : S} {q : Q} {k : A → Prog S Q A β} :
    (ask s q k).Holds I R P ↔ I s ∧ ∀ a, R q a → (k a).Holds I R P := Iff.rfl

theorem Holds.bind {p : Prog S Q A β} {f : β → Prog S Q A γ} {V : γ → Prop}
    (hp : p.Holds I R P) (hf : ∀ b, P b → (f b).Holds I R V) : (p >>= f).Holds I R V := by
  induction p with
  | done b => exact hf b hp
  | ask s q k ih => exact ⟨hp.1, fun a ha => ih a (hp.2 a ha)⟩

theorem Holds.load {s : S} {q : Q} {f : A → Prog S Q A β} (hs : I s)
    (hf : ∀ a, R q a → (f a).Holds I R P) : (Prog.load s q >>= f).Holds I R P :=
  ⟨hs, hf⟩

theorem Holds.mono {p : Prog S Q A β} (hp : p.Holds I R P)
    (hI : ∀ s, I s → J s) (hR : ∀ q a, T q a → R q a) (hP : ∀ b, P b → U b) : p.Holds J T U := by
  induction p with
  | done b => exact hP b hp
  | ask s q k ih =>
    exact ⟨hI s hp.1, fun a ha => ih a (hp.2 a (hR q a ha))⟩

theorem holds_of_forall (p : Prog S Q A β) (hI : ∀ s, I s) (hP : ∀ b, P b) : p.Holds I R P := by
  induction p with
  | done b => exact hP b
  | ask s q k ih => exact ⟨hI s, fun a _ => ih a⟩

theorem Holds.imp {p : Prog S Q A β} (hp : p.Holds I R P) (hP : ∀ b, P b → U b) : p.Holds I R U :=
  hp.mono (fun _ h => h) (fun _ _ h => h) hP

/-- What a program can end with when the loads find what satisfies `R`. -/
def Yields (R : Q → A → Prop) : Prog S Q A β → β → Prop
  | done b, b' => b' = b
  | ask _ q k, b' => ∃ a, R q a ∧ (k a).Yields R b'

theorem Holds.of_yields {p : Prog S Q A β} {b : β} (hp : p.Holds I R P) (hb : p.Yields R b) :
    P b := by
  induction p with
  | done b' =>
    obtain rfl : b = b' := hb
    exact hp
  | ask s q k ih =>
    obtain ⟨a, ha, hb⟩ := hb
    exact ih a (hp.2 a ha) hb

/-- The result when every load finds `a`. -/
def answered (a : A) : Prog S Q A β → β
  | done b => b
  | ask _ _ k => (k a).answered a

theorem yields_answered {a : A} (ha : ∀ q, R q a) (p : Prog S Q A β) :
    p.Yields R (p.answered a) := by
  induction p with
  | done b => exact rfl
  | ask s q k ih => exact ⟨a, ha q, ih a⟩

theorem holds_self (hR : ∀ q a b, R q a → R q b → a = b) (p : Prog S Q A β) :
    p.Holds (fun _ => True) R fun x => p.Holds (fun _ => True) R fun y => y = x := by
  induction p with
  | done b => exact rfl
  | ask s q k ih =>
    refine ⟨trivial, fun a ha => (ih a).imp fun x hx => ⟨trivial, fun b hb => ?_⟩⟩
    rw [hR q b a hb ha]
    exact hx

section

variable {T α δ : Type}

def translate (e : S → T) (g : β → γ) : Prog S Q A β → Prog T Q A γ
  | done b => done (g b)
  | ask s q k => ask (e s) q fun a => (k a).translate e g

theorem translate_bind {e : S → T} {g : β → γ} {h : α → δ} {p : Prog S Q A β}
    {f : β → Prog S Q A α} {f' : γ → Prog T Q A δ} (hf : ∀ b, f' (g b) = (f b).translate e h) :
    p.translate e g >>= f' = (p >>= f).translate e h := by
  induction p with
  | done b => exact hf b
  | ask s q k ih => exact congrArg (ask (e s) q) (funext ih)

theorem holds_translate {e : S → T} {g : β → γ} {p : Prog S Q A β} {I : T → Prop} {P : γ → Prop} :
    (p.translate e g).Holds I R P ↔ p.Holds (fun s => I (e s)) R fun b => P (g b) := by
  induction p with
  | done b => exact Iff.rfl
  | ask s q k ih =>
    refine and_congr_right fun _ => forall_congr' fun a => ?_
    exact imp_congr_right fun _ => ih a

end

section

variable {G : Type} {L : G → S → Prop} {next : G → S → A → G} {E : G → β → Prop}

/-- Where the history is `g`, every published state is in `L g` and the result in
`E g`; a load moves the history on. -/
def Follows (L : G → S → Prop) (next : G → S → A → G) (E : G → β → Prop) (g : G) :
    Prog S Q A β → Prop
  | done b => E g b
  | ask s _ k => L g s ∧ ∀ a, Follows L next E (next g s a) (k a)

theorem Follows.bind {F : G → γ → Prop} {g : G} {p : Prog S Q A β}
    {f : β → Prog S Q A γ} (hp : p.Follows L next E g)
    (hf : ∀ g b, E g b → (f b).Follows L next F g) : (p >>= f).Follows L next F g := by
  induction p generalizing g with
  | done b => exact hf g b hp
  | ask s q k ih => exact ⟨hp.1, fun a => ih a (hp.2 a)⟩

theorem Follows.load {g : G} {s : S} {q : Q} {f : A → Prog S Q A β} (hs : L g s)
    (hf : ∀ a, (f a).Follows L next E (next g s a)) : (Prog.load s q >>= f).Follows L next E g :=
  ⟨hs, hf⟩

end

end Prog

end Suspension
