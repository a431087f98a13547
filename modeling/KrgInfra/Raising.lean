/-
Computations that raise, and the exceptions that are handled.

A block of code is safe behind a handler if whatever it raises is handled.  A sequence is safe if
its first step is and, for what that one gives, so is the rest; a loop over a list is safe if its
body is for each element up to the first one at which it raises.

* `Handled`, `handled_bind` — a computation, and a sequence of two;
* `Along` — what holds of the elements that a loop comes to;
* `mapM_eq_ok_iff`, `mapM_returns_iff`, `handled_each`, `handled_last` — loops;
* `Strict` — a computation that gives something exactly where its arguments fit.
-/
import Mathlib.Data.List.Forall2

namespace Raising

variable {ε α β : Type} {p : ε → Prop}

/-- What a computation raises is handled. -/
def Handled (p : ε → Prop) (x : Except ε α) : Prop := ∀ e, x = .error e → p e

@[simp] theorem handled_ok (a : α) : Handled p (.ok a : Except ε α) := fun _ h => nomatch h

@[simp] theorem handled_pure (a : α) : Handled p (pure a : Except ε α) := handled_ok a

@[simp] theorem handled_error {e : ε} : Handled p (.error e : Except ε α) ↔ p e :=
  ⟨fun h => h e rfl, fun h _ he => Except.error.inj he ▸ h⟩

@[simp] theorem error_bind (e : ε) (f : α → Except ε β) :
    ((.error e : Except ε α) >>= f) = .error e := rfl

@[simp] theorem ok_bind (a : α) (f : α → Except ε β) :
    ((.ok a : Except ε α) >>= f) = f a := rfl

theorem bind_eq_ok_iff {x : Except ε α} {f : α → Except ε β} {b : β} :
    (x >>= f) = .ok b ↔ ∃ a, x = .ok a ∧ f a = .ok b := by
  cases x with
  | ok a => exact ⟨fun h => ⟨a, rfl, h⟩, fun ⟨_, ha, h⟩ => Except.ok.inj ha ▸ h⟩
  | error e => exact ⟨fun h => (nomatch h), fun ⟨_, ha, _⟩ => nomatch ha⟩

/-- A sequence. -/
theorem handled_bind {x : Except ε α} {f : α → Except ε β} :
    Handled p (x >>= f) ↔ Handled p x ∧ ∀ a, x = .ok a → Handled p (f a) := by
  cases x with
  | ok a => exact ⟨fun h => ⟨handled_ok a, fun _ ha => Except.ok.inj ha ▸ h⟩, fun h => h.2 a rfl⟩
  | error e =>
    rw [error_bind, handled_error, handled_error]
    exact ⟨fun h => ⟨h, fun _ ha => nomatch ha⟩, And.left⟩

/-- What is done with a result that is there raises nothing. -/
theorem handled_map {x : Except ε α} {f : α → β} :
    Handled p (x >>= fun a => .ok (f a)) ↔ Handled p x := by
  rw [handled_bind]
  exact and_iff_left fun _ _ => handled_ok _

/-! ### Loops -/

/-- The elements up to the first one that does not pass are fit. -/
def Along (passes fit : α → Prop) : List α → Prop
  | [] => True
  | a :: l => fit a ∧ (passes a → Along passes fit l)

/-- Where every element is fit, so are those that a loop comes to. -/
theorem Along.of_forall {passes fit : α → Prop} {l : List α} (h : ∀ a ∈ l, fit a) :
    Along passes fit l := by
  induction l with
  | nil => trivial
  | cons a l ih => exact ⟨h a List.mem_cons_self, fun _ => ih fun b hb => h b (List.mem_cons_of_mem _ hb)⟩

/-- A loop that passes every element has come to all of them. -/
theorem Along.forall {passes fit : α → Prop} {l : List α} (h : Along passes fit l)
    (hpasses : ∀ a ∈ l, passes a) : ∀ a ∈ l, fit a := by
  induction l with
  | nil => exact fun _ ha => nomatch ha
  | cons a l ih =>
    obtain ⟨hfirst, hothers⟩ := List.forall_mem_cons.mp hpasses
    exact List.forall_mem_cons.mpr ⟨h.1, ih (h.2 hfirst) hothers⟩

/-- Only on fit elements it counts whether they pass. -/
theorem Along.congr {passes passes' fit fit' : α → Prop} (hfit : ∀ a, fit a ↔ fit' a)
    (hpasses : ∀ a, fit a → (passes a ↔ passes' a)) {l : List α} :
    Along passes fit l ↔ Along passes' fit' l := by
  induction l with
  | nil => exact Iff.rfl
  | cons a l ih =>
    constructor
    · rintro ⟨ha, hl⟩
      exact ⟨(hfit a).mp ha, fun h => ih.mp (hl ((hpasses a ha).mpr h))⟩
    · rintro ⟨ha, hl⟩
      have ha' := (hfit a).mpr ha
      exact ⟨ha', fun h => ih.mpr (hl ((hpasses a ha').mp h))⟩

/-- A loop that comes to its end. -/
theorem mapM_eq_ok_iff {f : α → Except ε β} {l : List α} : ∀ {bs : List β},
    l.mapM f = .ok bs ↔ List.Forall₂ (fun a b => f a = .ok b) l bs := by
  induction l with
  | nil =>
    intro bs
    rw [List.mapM_nil, List.forall₂_nil_left_iff]
    exact ⟨fun h => (Except.ok.inj h).symm, fun h => h ▸ rfl⟩
  | cons a l ih =>
    intro bs
    rw [List.mapM_cons, bind_eq_ok_iff, List.forall₂_cons_left_iff]
    constructor
    · rintro ⟨b, hb, hrest⟩
      obtain ⟨bs', hbs, hbs'⟩ := bind_eq_ok_iff.mp hrest
      exact ⟨b, bs', hb, ih.mp hbs, (Except.ok.inj hbs').symm⟩
    · rintro ⟨b, bs', hb, hbs, rfl⟩
      exact ⟨b, hb, bind_eq_ok_iff.mpr ⟨bs', ih.mpr hbs, rfl⟩⟩

/-- What a loop gives is given for some element. -/
theorem exists_of_mem_mapM {f : α → Except ε β} {l : List α} {bs : List β} (h : l.mapM f = .ok bs)
    {b : β} (hb : b ∈ bs) : ∃ a ∈ l, f a = .ok b := by
  have hall := mapM_eq_ok_iff.mp h
  clear h
  induction hall with
  | nil => exact nomatch hb
  | @cons a b' l bs hab _ ih =>
    obtain rfl | hb := List.mem_cons.mp hb
    · exact ⟨a, List.mem_cons_self, hab⟩
    · obtain ⟨a', ha', hab'⟩ := ih hb
      exact ⟨a', List.mem_cons_of_mem _ ha', hab'⟩

/-- What a loop gives for an element is in its list. -/
theorem exists_of_mapM {f : α → Except ε β} {l : List α} {bs : List β} (h : l.mapM f = .ok bs)
    {a : α} (ha : a ∈ l) : ∃ b ∈ bs, f a = .ok b := by
  have hall := mapM_eq_ok_iff.mp h
  clear h
  induction hall with
  | nil => exact nomatch ha
  | @cons a' b l bs hab _ ih =>
    obtain rfl | ha := List.mem_cons.mp ha
    · exact ⟨b, List.mem_cons_self, hab⟩
    · obtain ⟨b', hb', hab'⟩ := ih ha
      exact ⟨b', List.mem_cons_of_mem _ hb', hab'⟩

/-- Every element is related to one. -/
theorem exists_forall₂_iff {rel : α → β → Prop} {l : List α} :
    (∃ bs, List.Forall₂ rel l bs) ↔ ∀ a ∈ l, ∃ b, rel a b := by
  induction l with
  | nil => exact ⟨fun _ _ h => (nomatch h), fun _ => ⟨[], .nil⟩⟩
  | cons a l ih =>
    rw [List.forall_mem_cons, ← ih]
    constructor
    · rintro ⟨_, h⟩
      obtain ⟨b, bs, hb, hbs, rfl⟩ := List.forall₂_cons_left_iff.mp h
      exact ⟨⟨b, hb⟩, bs, hbs⟩
    · rintro ⟨⟨b, hb⟩, bs, hbs⟩
      exact ⟨b :: bs, .cons hb hbs⟩

/-- A loop comes to its end if it does not raise at any element. -/
theorem mapM_returns_iff {f : α → Except ε β} {l : List α} :
    (∃ bs, l.mapM f = .ok bs) ↔ ∀ a ∈ l, ∃ b, f a = .ok b := by
  simp only [mapM_eq_ok_iff]
  exact exists_forall₂_iff

/-- A loop. -/
theorem handled_mapM {f : α → Except ε β} {l : List α} :
    Handled p (l.mapM f) ↔ Along (fun a => ∃ b, f a = .ok b) (fun a => Handled p (f a)) l := by
  induction l with
  | nil => exact ⟨fun _ => trivial, fun _ => handled_ok []⟩
  | cons a l ih =>
    rw [List.mapM_cons, handled_bind]
    refine and_congr_right fun _ => ?_
    constructor
    · rintro h ⟨b, hb⟩
      exact ih.mp (handled_map.mp (h b hb))
    · exact fun h b hb => handled_map.mpr (ih.mpr (h ⟨b, hb⟩))

/-- A loop, and what is done with the list that it makes. -/
theorem handled_each {γ : Type} {f : α → Except ε β} {g : List β → Except ε γ} {fit : α → Prop}
    {rel : α → β → Prop} (hfit : ∀ a, Handled p (f a) ↔ fit a)
    (hrel : ∀ a b, f a = .ok b ↔ rel a b) {l : List α} :
    Handled p (l.mapM f >>= g) ↔ Along (fun a => ∃ b, rel a b) fit l ∧
      ∀ bs, List.Forall₂ rel l bs → Handled p (g bs) := by
  have hf : rel = fun a b => f a = .ok b := funext fun a => funext fun b => propext (hrel a b).symm
  rw [handled_bind, handled_mapM]
  subst hf
  simp only [mapM_eq_ok_iff]
  exact and_congr_left fun _ => Along.congr hfit fun _ _ => Iff.rfl

/-- A loop, and something after it that does not depend on the list. -/
theorem handled_each_then {γ : Type} {f : α → Except ε β} {g : List β → Except ε γ}
    {passes fit : α → Prop} {rest : Prop} (hfit : ∀ a, Handled p (f a) ↔ fit a)
    (hpasses : ∀ a, fit a → ((∃ b, f a = .ok b) ↔ passes a)) (hg : ∀ bs, Handled p (g bs) ↔ rest)
    {l : List α} : Handled p (l.mapM f >>= g) ↔
      Along passes fit l ∧ ((∀ a ∈ l, passes a) → rest) := by
  have hall : ∀ {l : List α}, Along passes fit l →
      ((∀ a ∈ l, ∃ b, f a = .ok b) ↔ ∀ a ∈ l, passes a) := by
    intro l
    induction l with
    | nil => exact fun _ => ⟨fun _ _ h => (nomatch h), fun _ _ h => nomatch h⟩
    | cons a l ih =>
      rintro ⟨ha, hl⟩
      rw [List.forall_mem_cons, List.forall_mem_cons, hpasses a ha]
      exact and_congr_right fun hpass => ih (hl hpass)
  rw [handled_bind, handled_mapM, Along.congr hfit fun a ha => hpasses a ((hfit a).mp ha)]
  refine and_congr_right fun hl => ?_
  rw [← hall hl, ← mapM_returns_iff]
  simp only [hg, forall_exists_index]

/-- A loop at the end: nothing is raised after it. -/
theorem handled_last {γ : Type} {f : α → Except ε β} {g : List β → γ} {passes fit : α → Prop}
    (hfit : ∀ a, Handled p (f a) ↔ fit a) (hpasses : ∀ a, fit a → ((∃ b, f a = .ok b) ↔ passes a))
    {l : List α} : Handled p (l.mapM f >>= fun bs => .ok (g bs)) ↔ Along passes fit l := by
  rw [handled_map, handled_mapM]
  exact Along.congr hfit fun a ha => hpasses a ((hfit a).mp ha)

/-! ### Strict computations -/

/-- A computation gives something where its arguments fit, and elsewhere raises one of some
exceptions. -/
inductive Strict (q : ε → Prop) : Except ε α → Prop → Prop
  | ok (a : α) {fits : Prop} (h : fits) : Strict q (.ok a) fits
  | error {e : ε} (he : q e) {fits : Prop} (h : ¬ fits) : Strict q (.error e) fits

variable {q : ε → Prop}

theorem Strict.congr {x : Except ε α} {fits fits' : Prop} (h : Strict q x fits)
    (hfits : fits ↔ fits') : Strict q x fits' :=
  propext hfits ▸ h

theorem Strict.ok_iff {x : Except ε α} {fits : Prop} (h : Strict q x fits) :
    (∃ a, x = .ok a) ↔ fits := by
  cases h with
  | ok a h => exact ⟨fun _ => h, fun _ => ⟨a, rfl⟩⟩
  | error he h => exact ⟨fun ⟨_, ha⟩ => (nomatch ha), fun hf => absurd hf h⟩

/-- Where none of the exceptions is handled, the arguments have to fit. -/
theorem Strict.handled_iff {x : Except ε α} {fits : Prop} (h : Strict q x fits)
    (hq : ∀ e, q e → ¬ p e) : Handled p x ↔ fits := by
  cases h with
  | ok a h => exact ⟨fun _ => h, fun _ => handled_ok a⟩
  | error he h => exact ⟨fun hh => absurd (handled_error.mp hh) (hq _ he), fun hf => absurd hf h⟩

/-- A sequence whose rest fits depending on what its first step gives. -/
theorem Strict.bindDep {x : Except ε α} {f : α → Except ε β} {fits : Prop} {rest : α → Prop}
    (h : Strict q x fits) (hf : ∀ a, x = .ok a → Strict q (f a) (rest a)) :
    Strict q (x >>= f) (∃ a, x = .ok a ∧ rest a) := by
  cases h with
  | ok a h =>
    refine (hf a rfl).congr ⟨fun hr => ⟨a, rfl, hr⟩, ?_⟩
    rintro ⟨a', ha', hr⟩
    exact Except.ok.inj ha' ▸ hr
  | error he h => exact .error he fun ⟨_, ha, _⟩ => nomatch ha

theorem Strict.bind {x : Except ε α} {f : α → Except ε β} {fits fits' : Prop} (h : Strict q x fits)
    (hf : ∀ a, x = .ok a → Strict q (f a) fits') : Strict q (x >>= f) (fits ∧ fits') := by
  cases h with
  | ok a h => exact (hf a rfl).congr ⟨fun hf => ⟨h, hf⟩, And.right⟩
  | error he h => exact .error he fun hfits => h hfits.1

/-- What is done with a result that is there raises nothing. -/
theorem Strict.map {x : Except ε α} {fits : Prop} (h : Strict q x fits) (f : α → β) :
    Strict q (x >>= fun a => .ok (f a)) fits :=
  (h.bind fun a _ => .ok (f a) trivial).congr (and_iff_left trivial)

theorem Strict.mapM {f : α → Except ε β} {fits : α → Prop} (h : ∀ a, Strict q (f a) (fits a)) :
    ∀ l : List α, Strict q (l.mapM f) (∀ a ∈ l, fits a)
  | [] => .ok [] fun _ ha => nomatch ha
  | a :: l => by
    rw [List.mapM_cons]
    refine ((h a).bind fun b _ => (Strict.mapM h l).map (b :: ·)).congr ?_
    exact List.forall_mem_cons.symm

end Raising
