import Mathlib.Data.List.Basic

/-!
# Programs that make requests

A component that talks to another one is modelled as a tree: it ends with a
result, or it makes a request `q` and goes on with the answer, which has the
type `A q` that belongs to the request.  The tree does not say what the answers
are.  A path through it is one execution, with the exchanges in the order newest
first.

* `Program.bind` ends at the first error, like `?`, and `Program.attempt` turns
  the result into a value.
* `Path p past es r`: after the exchanges `past`, `p` can end with the result
  `r` and the exchanges `es`.
* `Meets P p past`: every path ends as `P` says.  The rules for the constructs
  compute it along the program.
* `Asks R p`: all requests that `p` can make are allowed by `R`.
* `Triple step pre p post` is about a state that changes with the exchanges.
* `mapRequests` replaces the requests, such as by ones that say less.
* `answered` follows the one path that an oracle for the answers gives.
-/

namespace Vanyline.Lib

universe u v w

/-- A program with requests `Q`, answers `A`, errors `ε` and values `α`. -/
inductive Program (Q : Type u) (A : Q → Type v) (ε : Type*) (α : Type w)
  | done (result : Except ε α)
  | ask (q : Q) (next : A q → Program Q A ε α)

/-- One request and the answer to it. -/
abbrev Exchange {Q : Type u} (A : Q → Type v) := Sigma A

namespace Program

variable {Q : Type u} {A : Q → Type v} {ε ε' : Type*} {α β : Type w}

/-- The value of the first program goes to the second; an error ends both. -/
def bind : Program Q A ε α → (α → Program Q A ε β) → Program Q A ε β
  | done (.ok a), f => f a
  | done (.error e), _ => done (.error e)
  | ask q next, f => ask q fun x => (next x).bind f

instance : Monad (Program Q A ε) where
  pure a := done (.ok a)
  bind := bind

theorem bind_assoc {γ : Type w} (p : Program Q A ε α) (f : α → Program Q A ε β)
    (g : β → Program Q A ε γ) : p >>= f >>= g = p >>= fun a => f a >>= g := by
  show (p.bind f).bind g = p.bind fun a => (f a).bind g
  induction p with
  | done r => cases r <;> rfl
  | ask q next ih => exact congrArg (ask q) (funext ih)

/-- End with an error. -/
def throw (e : ε) : Program Q A ε α := done (.error e)

/-- Make one request and return the answer. -/
def request (q : Q) : Program Q A ε (A q) := ask q fun x => done (.ok x)

/-- Return the result, error or not, as a value. -/
def attempt : Program Q A ε α → Program Q A ε' (Except ε α)
  | done r => done (.ok r)
  | ask q next => ask q fun x => (next x).attempt

/-! ## Paths -/

/-- After the exchanges `past`, the program ends with `r` and the exchanges `es`. -/
inductive Path : Program Q A ε α → List (Exchange A) → List (Exchange A) → Except ε α → Prop
  | done {r : Except ε α} {past : List (Exchange A)} : Path (.done r) past past r
  | ask {q : Q} {next : A q → Program Q A ε α} {past es : List (Exchange A)} {r : Except ε α}
      (x : A q) (rest : Path (next x) (⟨q, x⟩ :: past) es r) : Path (.ask q next) past es r

/-- Every path ends as `P` says of its exchanges and its result. -/
def Meets (P : List (Exchange A) → Except ε α → Prop) :
    Program Q A ε α → List (Exchange A) → Prop
  | done r, past => P past r
  | ask q next, past => ∀ x, (next x).Meets P (⟨q, x⟩ :: past)

variable {P P' : List (Exchange A) → Except ε α → Prop} {past es : List (Exchange A)}

/-- `Meets` speaks of the ends of the paths. -/
theorem meets_iff {p : Program Q A ε α} :
    p.Meets P past ↔ ∀ es r, Path p past es r → P es r := by
  induction p generalizing past with
  | done r =>
      constructor
      · intro h es r' hpath
        cases hpath
        exact h
      · intro h
        exact h past r .done
  | ask q next ih =>
      constructor
      · intro h es r hpath
        cases hpath with
        | ask x rest => exact (ih x).1 (h x) es r rest
      · intro h x
        exact (ih x).2 fun es r rest => h es r (.ask x rest)

@[simp] theorem meets_done {r : Except ε α} : (done r : Program Q A ε α).Meets P past ↔ P past r :=
  Iff.rfl

@[simp] theorem meets_ask {q : Q} {next : A q → Program Q A ε α} :
    (ask q next).Meets P past ↔ ∀ x, (next x).Meets P (⟨q, x⟩ :: past) := Iff.rfl

@[simp] theorem meets_pure {a : α} : (pure a : Program Q A ε α).Meets P past ↔ P past (.ok a) :=
  Iff.rfl

@[simp] theorem meets_throw {e : ε} : (throw e : Program Q A ε α).Meets P past ↔ P past (.error e) :=
  Iff.rfl

@[simp] theorem meets_request {q : Q} {P : List (Exchange A) → Except ε (A q) → Prop} :
    (request q : Program Q A ε (A q)).Meets P past ↔ ∀ x, P (⟨q, x⟩ :: past) (.ok x) := Iff.rfl

/-- The second program goes on where the first one ended. -/
@[simp] theorem meets_bind {P : List (Exchange A) → Except ε β → Prop} {p : Program Q A ε α}
    {f : α → Program Q A ε β} : (p >>= f).Meets P past ↔
      p.Meets (fun es r => match r with
        | .ok a => (f a).Meets P es
        | .error e => P es (.error e)) past := by
  show (p.bind f).Meets P past ↔ _
  induction p generalizing past with
  | done r => cases r <;> rfl
  | ask q next ih => exact forall_congr' fun x => ih x

@[simp] theorem meets_attempt {P : List (Exchange A) → Except ε' (Except ε α) → Prop}
    {p : Program Q A ε α} : (p.attempt : Program Q A ε' _).Meets P past ↔
      p.Meets (fun es r => P es (.ok r)) past := by
  induction p generalizing past with
  | done r => rfl
  | ask q next ih => exact forall_congr' fun x => ih x

/-- A consequence of what every path meets. -/
theorem Meets.imp {p : Program Q A ε α} (h : p.Meets P past) (himp : ∀ es r, P es r → P' es r) :
    p.Meets P' past :=
  meets_iff.2 fun es r hpath => himp es r (meets_iff.1 h es r hpath)

/-- A program does not look at the exchanges before it. -/
theorem meets_append {p : Program Q A ε α} {new : List (Exchange A)} :
    p.Meets P (new ++ past) ↔ p.Meets (fun es r => P (es ++ past) r) new := by
  induction p generalizing new with
  | done r => rfl
  | ask q next ih =>
      refine forall_congr' fun x => ?_
      show (next x).Meets P ((⟨q, x⟩ :: new) ++ past) ↔ _
      exact ih x

theorem meets_iff_append {p : Program Q A ε α} :
    p.Meets P past ↔ p.Meets (fun es r => P (es ++ past) r) [] := by
  rw [← meets_append, List.nil_append]

/-! ## Programs that return

The rules for what holds when the program returns a value; an error is no matter. -/

/-- Every path that ends with a value ends as `P` says. -/
def Returns (P : List (Exchange A) → α → Prop) (p : Program Q A ε α) (past : List (Exchange A)) :
    Prop := p.Meets (fun es r => ∀ a, r = .ok a → P es a) past

theorem returns_done {P : List (Exchange A) → α → Prop} {r : Except ε α} :
    (done r : Program Q A ε α).Returns P past ↔ ∀ a, r = .ok a → P past a := Iff.rfl

theorem returns_pure {P : List (Exchange A) → α → Prop} {a : α} :
    (pure a : Program Q A ε α).Returns P past ↔ P past a := by
  constructor
  · intro h
    exact h a rfl
  · rintro h b ⟨⟩
    exact h

theorem returns_throw {P : List (Exchange A) → α → Prop} {e : ε} :
    (throw e : Program Q A ε α).Returns P past := by
  rintro a ⟨⟩

theorem returns_request {q : Q} {P : List (Exchange A) → A q → Prop} :
    (request q : Program Q A ε (A q)).Returns P past ↔ ∀ x, P (⟨q, x⟩ :: past) x := by
  constructor
  · intro h x
    exact h x x rfl
  · rintro h x y ⟨⟩
    exact h x

theorem returns_bind {P : List (Exchange A) → β → Prop} {p : Program Q A ε α}
    {f : α → Program Q A ε β} :
    (p >>= f).Returns P past ↔ p.Returns (fun es a => (f a).Returns P es) past := by
  rw [Returns, meets_bind]
  constructor
  · intro h
    refine h.imp fun es r hr a ha => ?_
    subst ha
    exact hr
  · intro h
    refine h.imp fun es r hr => ?_
    cases r with
    | ok a => exact hr a rfl
    | error e => exact fun a ha => by cases ha

/-- A path of two programs goes through the value of the first one. -/
theorem path_bind_ok {p : Program Q A ε α} {f : α → Program Q A ε β} {b : β} :
    Path (p >>= f) past es (.ok b) ↔
      ∃ a mid, Path p past mid (.ok a) ∧ Path (f a) mid es (.ok b) := by
  show Path (p.bind f) past es (.ok b) ↔ _
  induction p generalizing past with
  | done r =>
      cases r with
      | ok a =>
          constructor
          · exact fun h => ⟨a, past, .done, h⟩
          · rintro ⟨_, _, ⟨⟩, h⟩
            exact h
      | error e =>
          constructor
          · intro h
            cases h
          · rintro ⟨_, _, h, -⟩
            cases h
  | ask q next ih =>
      constructor
      · intro h
        cases h with
        | ask x rest =>
            rcases (ih x).1 rest with ⟨a, mid, hp, hf⟩
            exact ⟨a, mid, .ask x hp, hf⟩
      · rintro ⟨a, mid, hp, hf⟩
        cases hp with
        | ask x rest => exact .ask x ((ih x).2 ⟨a, mid, rest, hf⟩)

/-- The exchanges that were there stay there. -/
theorem Path.suffix {p : Program Q A ε α} {r : Except ε α} (h : Path p past es r) :
    past <:+ es := by
  induction h with
  | done => exact List.suffix_rfl
  | ask x _ ih => exact (List.suffix_cons _ _).trans ih

/-! ## The requests that a program can make -/

/-- Every request on every path is one that `P` allows. -/
def Asks (P : Q → Prop) : Program Q A ε α → Prop
  | done _ => True
  | ask q next => P q ∧ ∀ x, (next x).Asks P

section Asks

variable {R : Q → Prop}

theorem asks_pure {a : α} : (pure a : Program Q A ε α).Asks R := trivial

theorem asks_throw {e : ε} : (throw e : Program Q A ε α).Asks R := trivial

theorem asks_request {q : Q} (h : R q) : (request q : Program Q A ε (A q)).Asks R :=
  ⟨h, fun _ => trivial⟩

theorem Asks.bind {p : Program Q A ε α} {f : α → Program Q A ε β} (hp : p.Asks R)
    (hf : ∀ a, (f a).Asks R) : (p >>= f).Asks R := by
  show (p.bind f).Asks R
  induction p with
  | done r =>
      cases r with
      | ok a => exact hf a
      | error e => trivial
  | ask q next ih => exact ⟨hp.1, fun x => ih x (hp.2 x)⟩

theorem Asks.attempt {p : Program Q A ε α} (hp : p.Asks R) :
    (p.attempt : Program Q A ε' _).Asks R := by
  induction p with
  | done r => trivial
  | ask q next ih => exact ⟨hp.1, fun x => ih x (hp.2 x)⟩

theorem asks_forM {β : Type*} {f : β → Program Q A ε PUnit} (hf : ∀ b, (f b).Asks R) (bs : List β) :
    (bs.forM f).Asks R := by
  induction bs with
  | nil => exact asks_pure
  | cons b bs ih => exact (hf b).bind fun _ => ih

/-- The requests of a path are allowed, apart from those of its past. -/
theorem Asks.of_path {p : Program Q A ε α} (hp : p.Asks R) {r : Except ε α}
    (h : Path p past es r) (hpast : ∀ e ∈ past, R e.1) : ∀ e ∈ es, R e.1 := by
  induction h with
  | done => exact hpast
  | ask x _ ih =>
      refine ih (hp.2 x) ?_
      intro e he
      rcases List.mem_cons.1 he with rfl | he
      · exact hp.1
      · exact hpast e he

end Asks

/-! ## Other requests -/

section Requests

variable {Q' : Type*} {B : Q' → Type v} (f : Q → Q')

/-- Each request is replaced by one with the same answers. -/
def mapRequests : Program Q (fun q => B (f q)) ε α → Program Q' B ε α
  | done r => done r
  | ask q next => ask (f q) fun x => (next x).mapRequests

theorem mapRequests_bind (p : Program Q (fun q => B (f q)) ε α)
    (g : α → Program Q (fun q => B (f q)) ε β) :
    (p >>= g).mapRequests f = p.mapRequests f >>= fun a => (g a).mapRequests f := by
  show (p.bind g).mapRequests f = (p.mapRequests f).bind _
  induction p with
  | done r => cases r <;> rfl
  | ask q next ih => exact congrArg (ask (f q)) (funext ih)

end Requests

/-! ## Triples

A state changes with the exchanges: `step s e t` says that the exchange `e` can lead from `s` to
`t`. -/

section Triples

variable {σ : Type*} (step : σ → Exchange A → σ → Prop)

/-- The exchanges, newest first, lead from `s` to another state. -/
inductive Follows (s : σ) : List (Exchange A) → σ → Prop
  | refl : Follows s [] s
  | step {es : List (Exchange A)} {e : Exchange A} {t u : σ} (rest : Follows s es t)
      (last : step t e u) : Follows s (e :: es) u

/-- From a state with `pre`, the program returns in a state with `post`. -/
def Triple (pre : σ → Prop) (p : Program Q A ε α) (post : α → σ → Prop) : Prop :=
  ∀ s past, (∀ t, Follows step s past t → pre t) →
    p.Returns (fun es a => ∀ t, Follows step s es t → post a t) past

variable {step} {pre pre' : σ → Prop} {post post' : α → σ → Prop}

theorem Triple.of_path {p : Program Q A ε α} (h : Triple step pre p post) {s t : σ} {a : α}
    (hpath : Path p past es (.ok a)) (hfollows : Follows step s es t)
    (hpre : ∀ u, Follows step s past u → pre u) : post a t :=
  meets_iff.1 (h s past hpre) es _ hpath a rfl t hfollows

theorem triple_pure {a : α} (h : ∀ s, pre s → post a s) :
    Triple step pre (pure a : Program Q A ε α) post := by
  intro s past hpast
  exact returns_pure.2 fun t ht => h t (hpast t ht)

theorem triple_throw {e : ε} : Triple step pre (throw e : Program Q A ε α) post :=
  fun _ _ _ => returns_throw

theorem triple_done {r : Except ε α} (h : ∀ s a, r = .ok a → pre s → post a s) :
    Triple step pre (done r : Program Q A ε α) post := by
  intro s past hpast
  exact returns_done.2 fun a ha t ht => h t a ha (hpast t ht)

theorem triple_bind {p : Program Q A ε α} {f : α → Program Q A ε β} {mid : α → σ → Prop}
    {post : β → σ → Prop} (hp : Triple step pre p mid) (hf : ∀ a, Triple step (mid a) (f a) post) :
    Triple step pre (p >>= f) post := by
  intro s past hpast
  refine returns_bind.2 ((hp s past hpast).imp ?_)
  intro es r hr a ha
  exact hf a s es (hr a ha)

theorem triple_ask {q : Q} {next : A q → Program Q A ε α} (mid : A q → σ → Prop)
    (h : ∀ s x t, pre s → step s ⟨q, x⟩ t → mid x t)
    (hnext : ∀ x, Triple step (mid x) (next x) post) : Triple step pre (ask q next) post := by
  intro s past hpast x
  refine hnext x s (⟨q, x⟩ :: past) ?_
  intro t ht
  cases ht with
  | step rest last => exact h _ x t (hpast _ rest) last

theorem Triple.imp {p : Program Q A ε α} (h : Triple step pre p post)
    (hpre : ∀ s, pre' s → pre s) (hpost : ∀ a s, post a s → post' a s) :
    Triple step pre' p post' := by
  intro s past hpast
  refine (h s past fun t ht => hpre t (hpast t ht)).imp ?_
  intro es r hr a ha t ht
  exact hpost a t (hr a ha t ht)

/-- Requests that leave the property alone keep it. -/
theorem triple_of_asks {R : Q → Prop} {p : Program Q A ε α} (hp : p.Asks R)
    (hkeep : ∀ s q x t, R q → step s ⟨q, x⟩ t → pre s → pre t) :
    Triple step pre p fun _ => pre := by
  intro s past hpast
  induction p generalizing past with
  | done r => exact fun _ _ => hpast
  | ask q next ih =>
      intro x
      refine ih x (hp.2 x) (⟨q, x⟩ :: past) ?_
      intro t ht
      cases ht with
      | step rest last => exact hkeep _ q x t hp.1 last (hpast _ rest)

end Triples

/-! ## Following an oracle -/

/-- The exchanges and the result when the oracle answers. -/
def answered (oracle : ∀ q, A q) :
    Program Q A ε α → List (Exchange A) → List (Exchange A) × Except ε α
  | done r, past => (past, r)
  | ask q next, past => (next (oracle q)).answered oracle (⟨q, oracle q⟩ :: past)

@[simp] theorem answered_pure {oracle : ∀ q, A q} {a : α} :
    (pure a : Program Q A ε α).answered oracle past = (past, .ok a) := rfl

@[simp] theorem answered_throw {oracle : ∀ q, A q} {e : ε} :
    (throw e : Program Q A ε α).answered oracle past = (past, .error e) := rfl

@[simp] theorem answered_done {oracle : ∀ q, A q} {r : Except ε α} :
    (done r : Program Q A ε α).answered oracle past = (past, r) := rfl

@[simp] theorem answered_request {oracle : ∀ q, A q} {q : Q} :
    (request q : Program Q A ε (A q)).answered oracle past =
      (⟨q, oracle q⟩ :: past, .ok (oracle q)) := rfl

@[simp] theorem answered_bind {oracle : ∀ q, A q} {p : Program Q A ε α} {f : α → Program Q A ε β} :
    (p >>= f).answered oracle past =
      match p.answered oracle past with
      | (es, .ok a) => (f a).answered oracle es
      | (es, .error e) => (es, .error e) := by
  show (p.bind f).answered oracle past = _
  induction p generalizing past with
  | done r => cases r <;> rfl
  | ask q next ih => exact ih (oracle q)

@[simp] theorem answered_attempt {oracle : ∀ q, A q} {p : Program Q A ε α} :
    (p.attempt : Program Q A ε' _).answered oracle past =
      ((p.answered oracle past).1, .ok (p.answered oracle past).2) := by
  induction p generalizing past with
  | done r => rfl
  | ask q next ih => exact ih (oracle q)

/-- The oracle's answers make a path. -/
theorem path_answered (oracle : ∀ q, A q) (p : Program Q A ε α) (past : List (Exchange A)) :
    Path p past (p.answered oracle past).1 (p.answered oracle past).2 := by
  induction p generalizing past with
  | done r => exact .done
  | ask q next ih => exact .ask _ (ih _ _)

end Program

end Vanyline.Lib
