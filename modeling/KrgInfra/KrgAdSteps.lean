/-
The steps of the domain script: what they add, say and leave alone.

* `Sound` — a step that adds only; that says under `--check` what it would add, and only then; and
  that, once it has done its part, does nothing more;
* `Sound.ask`, `Sound.ensure`, `Sound.foldl`, `Sound.andThen` — steps that are put together of
  others;
* `sound_member`, `sound_accounts`, `sound_acls` — the members of groups, and two subcommands.
-/
import KrgInfra.KrgAd

namespace KrgAd

variable {σ α : Type} {S : Samba σ}

/-- Nothing is taken away. -/
structure Directory.Le (d d' : Directory) : Prop where
  groups : d.groups ⊆ d'.groups
  users : d.users ⊆ d'.users
  members : ∀ g, d.members g ⊆ d'.members g
  aces : ∀ dn, d.aces dn ⊆ d'.aces dn

namespace Directory.Le

variable {d d' d'' : Directory}

theorem refl (d : Directory) : d.Le d :=
  ⟨subset_rfl, subset_rfl, fun _ => subset_rfl, fun _ => subset_rfl⟩

theorem trans (h : d.Le d') (h' : d'.Le d'') : d.Le d'' :=
  ⟨h.groups.trans h'.groups, h.users.trans h'.users, fun g => (h.members g).trans (h'.members g),
    fun dn => (h.aces dn).trans (h'.aces dn)⟩

theorem groupAdd (d : Directory) (name : String) (extra : List String) :
    d.Le (Command.apply d (.groupAdd name extra)) :=
  ⟨Set.subset_insert _ _, subset_rfl, fun _ => subset_rfl, fun _ => subset_rfl⟩

theorem addMembers (d : Directory) (group member : String) :
    d.Le (Command.apply d (.addMembers group member)) := by
  refine ⟨subset_rfl, subset_rfl, fun g => ?_, fun _ => subset_rfl⟩
  by_cases hg : g = group
  · subst hg
    show d.members g ⊆ Function.update d.members g _ g
    rw [Function.update_self]
    exact Set.subset_insert _ _
  · show d.members g ⊆ Function.update d.members group _ g
    rw [Function.update_of_ne hg]

theorem dsaclSet (d : Directory) (dn sddl : String) :
    d.Le (Command.apply d (.dsaclSet dn sddl)) := by
  refine ⟨subset_rfl, subset_rfl, fun _ => subset_rfl, fun dn' => ?_⟩
  by_cases hdn : dn' = dn
  · subst hdn
    show d.aces dn' ⊆ Function.update d.aces dn' _ dn'
    rw [Function.update_self]
    exact Set.subset_insert _ _
  · show d.aces dn' ⊆ Function.update d.aces dn _ dn'
    rw [Function.update_of_ne hdn]

end Directory.Le

/-! ### What a run did -/

def Mutated (w : World σ) : Prop := ∃ x ∈ w.calls, x.1.mutating = true

/-- A WOULD-CHANGE line was printed. -/
def Would (w : World σ) : Prop := ∃ m, Line.would m ∈ w.lines

def Failed (w : World σ) : Prop := ∃ m, Line.fail m ∈ w.lines

/-- What was issued and printed before. -/
structure Follows (w w' : World σ) : Prop where
  calls : w.calls ⊆ w'.calls
  lines : w.lines ⊆ w'.lines

namespace Follows

variable {w w' w'' : World σ}

theorem refl (w : World σ) : Follows w w := ⟨List.Subset.refl _, List.Subset.refl _⟩

theorem trans (h : Follows w w') (h' : Follows w' w'') : Follows w w'' :=
  ⟨List.Subset.trans h.calls h'.calls, List.Subset.trans h.lines h'.lines⟩

theorem mutated (h : Follows w w') (hw : Mutated w) : Mutated w' := by
  obtain ⟨x, hx, hmutating⟩ := hw
  exact ⟨x, h.calls hx, hmutating⟩

theorem would (h : Follows w w') (hw : Would w) : Would w' := by
  obtain ⟨m, hm⟩ := hw
  exact ⟨m, h.lines hm⟩

theorem failed (h : Follows w w') (hw : Failed w) : Failed w' := by
  obtain ⟨m, hm⟩ := hw
  exact ⟨m, h.lines hm⟩

theorem say (w : World σ) (line : Line) : Follows w (w.say line) :=
  ⟨List.Subset.refl _, List.subset_append_left _ _⟩

theorem ask (exec : Command → σ → Answer × σ) (c : Command) (w : World σ) :
    Follows w (w.ask exec c).2 :=
  ⟨List.subset_append_left _ _, List.Subset.refl _⟩

end Follows

theorem would_say (w : World σ) (m : String) : Would (w.say (.would m)) :=
  ⟨m, List.mem_append_right _ (List.mem_singleton_self _)⟩

theorem failed_say (w : World σ) (m : String) : Failed (w.say (.fail m)) :=
  ⟨m, List.mem_append_right _ (List.mem_singleton_self _)⟩

def Line.isWould : Line → Bool
  | .would _ => true
  | _ => false

/-- Only a line that says so is one. -/
theorem would_of_say {w : World σ} {line : Line} (h : Would (w.say line))
    (hline : line.isWould = false) : Would w := by
  obtain ⟨m, hm⟩ := h
  obtain hm | hm := List.mem_append.mp hm
  · exact ⟨m, hm⟩
  · rw [← List.mem_singleton.mp hm] at hline
    exact nomatch hline

theorem mutated_ask {exec : Command → σ → Answer × σ} {c : Command} {w : World σ} :
    Mutated (w.ask exec c).2 ↔ Mutated w ∨ c.mutating = true := by
  constructor
  · rintro ⟨x, hx, hmutating⟩
    obtain hx | hx := List.mem_append.mp hx
    · exact .inl ⟨x, hx, hmutating⟩
    · rw [List.mem_singleton.mp hx] at hmutating
      exact .inr hmutating
  · rintro (h | h)
    · exact (Follows.ask exec c w).mutated h
    · exact ⟨_, List.mem_append_right _ (List.mem_singleton_self _), h⟩

/-- Calls that read leave the directory as it is. -/
theorem Samba.dir_read (S : Samba σ) {c : Command} (hc : c.mutating = false) (s : σ) :
    S.dir (S.exec c s).2 = S.dir s := by
  by_cases hrc : (S.exec c s).1.rc = 0
  · rw [S.effect c s hrc]
    cases c <;> first | rfl | exact absurd hc (by simp [Command.mutating])
  · exact S.refused c s hrc

/-- Calls that add, add. -/
theorem Samba.dir_le (S : Samba σ) {c : Command} (hc : ∀ d : Directory, d.Le (c.apply d)) (s : σ) :
    (S.dir s).Le (S.dir (S.exec c s).2) := by
  by_cases hrc : (S.exec c s).1.rc = 0
  · rw [S.effect c s hrc]
    exact hc _
  · rw [S.refused c s hrc]
    exact .refl _

/-! ### Sound steps -/

/-- A step that brings about `H`, under `--check` or not. -/
structure Sound (S : Samba σ) (H : Directory → Prop) (step : Bool → World σ → World σ) : Prop where
  follows : ∀ check w, Follows w (step check w)
  /-- Under `--check` nothing is changed. -/
  harmless : ∀ w, Mutated (step true w) → Mutated w
  /-- What would be changed is said, and else the runs are one. -/
  alike : ∀ w, step true w = step false w ∨ Would (step true w) ∧ Mutated (step false w)
  /-- Only under `--check` something is said. -/
  honest : ∀ w, Would (step false w) → Would w
  grows : ∀ check w, (S.dir w.state).Le (S.dir (step check w).state)
  reached : ∀ w, ¬ Failed (step false w) → H (S.dir (step false w).state)
  /-- Where it holds, nothing more is changed. -/
  stays : ∀ w, H (S.dir w.state) → Mutated (step false w) → Mutated w

/-- What no addition takes away. -/
def Kept (H : Directory → Prop) : Prop := ∀ ⦃d d' : Directory⦄, d.Le d' → H d → H d'

namespace Sound

variable {H : Directory → Prop} {step : Bool → World σ → World σ}

theorem congr {H' : Directory → Prop} (h : Sound S H step) (hH : ∀ d, H d ↔ H' d) :
    Sound S H' step := by
  obtain rfl : H = H' := funext fun d => propext (hH d)
  exact h

theorem fail (S : Samba σ) (H : Directory → Prop) (m : String) :
    Sound S H fun _ w => w.say (.fail m) where
  follows _ w := .say w _
  harmless _ h := h
  alike _ := .inl rfl
  honest _ h := would_of_say h rfl
  grows _ _ := .refl _
  reached w h := absurd (failed_say w m) h
  stays _ _ h := h

theorem close (S : Samba σ) : Sound S (fun _ => True) fun _ w => w.close where
  follows _ w := by
    rw [World.close]
    split_ifs
    · exact .say w _
    · exact .refl w
  harmless w h := by
    rw [World.close] at h
    split_ifs at h
    · exact h
    · exact h
  alike _ := .inl rfl
  honest w h := by
    rw [World.close] at h
    split_ifs at h
    · exact would_of_say h rfl
    · exact h
  grows _ w := by
    rw [World.close]
    split_ifs
    · exact .refl _
    · exact .refl _
  reached _ _ := trivial
  stays w _ h := by
    rw [World.close] at h
    split_ifs at h
    · exact h
    · exact h

/-- Two steps, one after the other. -/
theorem andThen {H' : Directory → Prop} {step' : Bool → World σ → World σ} (h : Sound S H step)
    (h' : Sound S H' step') (hkept : Kept H) (hkept' : Kept H') :
    Sound S (fun d => H d ∧ H' d) fun check w => step' check (step check w) where
  follows check w := (h.follows check w).trans (h'.follows check _)
  harmless w hw := h.harmless w (h'.harmless _ hw)
  alike w := by
    obtain heq | ⟨hwould, hmutated⟩ := h.alike w
    · rw [heq]
      exact h'.alike _
    · exact .inr ⟨(h'.follows true _).would hwould, (h'.follows false _).mutated hmutated⟩
  honest w hw := h.honest w (h'.honest _ hw)
  grows check w := (h.grows check w).trans (h'.grows check _)
  reached w hw := by
    refine ⟨hkept (h'.grows false _) (h.reached w fun hf => hw ?_), h'.reached _ hw⟩
    exact (h'.follows false _).failed hf
  stays w hH hw := h.stays w hH.1 (h'.stays _ (hkept' (h.grows false w) hH.2) hw)

/-- The same step for all items of a list. -/
theorem foldl {H : α → Directory → Prop} {steps : α → Bool → World σ → World σ} (l : List α)
    (h : ∀ x ∈ l, Sound S (H x) (steps x)) (hkept : ∀ x, Kept (H x)) :
    Sound S (fun d => ∀ x ∈ l, H x d) fun check w => l.foldl (fun w x => steps x check w) w := by
  induction l with
  | nil =>
    exact ⟨fun _ w => .refl w, fun _ h => h, fun _ => .inl rfl, fun _ h => h, fun _ _ => .refl _,
      fun _ _ _ h => (nomatch h), fun _ _ h => h⟩
  | cons x l ih =>
    obtain ⟨hx, hl⟩ := List.forall_mem_cons.mp h
    have hall : Kept fun d => ∀ x ∈ l, H x d := fun _ _ hle hd y hy => hkept y hle (hd y hy)
    exact (hx.andThen (ih hl) (hkept x) hall).congr fun d =>
      (List.forall_mem_cons (p := fun y => H y d)).symm

/-- A step after a call that reads, whatever it is answered. -/
theorem ask {c : Command} (hc : c.mutating = false) {k : Answer → Bool → World σ → World σ}
    (h : ∀ s, Sound S H (k (S.exec c s).1)) :
    Sound S H fun check w => k (w.ask S.exec c).1 check (w.ask S.exec c).2 where
  follows check w := (Follows.ask S.exec c w).trans ((h w.state).follows check _)
  harmless w hw := by
    obtain hw | hc' := mutated_ask.mp ((h w.state).harmless _ hw)
    · exact hw
    · exact absurd (hc.symm.trans hc') Bool.false_ne_true
  alike w := (h w.state).alike _
  honest w hw := (h w.state).honest (w.ask S.exec c).2 hw
  grows check w := by
    have hgrows := (h w.state).grows check (w.ask S.exec c).2
    rwa [show S.dir (w.ask S.exec c).2.state = S.dir w.state from S.dir_read hc w.state] at hgrows
  reached w hw := (h w.state).reached _ hw
  stays w hH hw := by
    have hdir : S.dir (w.ask S.exec c).2.state = S.dir w.state := S.dir_read hc w.state
    obtain hw | hc' := mutated_ask.mp ((h w.state).stays _ (hdir.symm ▸ hH) hw)
    · exact hw
    · exact absurd (hc.symm.trans hc') Bool.false_ne_true

/-- What is missing is added, where the reading call tells what is there. -/
theorem ensure {read change : Command} {readFailed changeFailed : Answer → String}
    {present : Answer → Bool} {would changed : String} (hread : read.mutating = false)
    (hchange : change.mutating = true) (hadds : ∀ d : Directory, d.Le (change.apply d))
    (hpresent : ∀ s, (S.exec read s).1.rc = 0 →
      (present (S.exec read s).1 = true ↔ H (S.dir s)))
    (hbrings : ∀ d, H (change.apply d)) :
    Sound S H fun check => ensure S.exec check read readFailed present would change changeFailed
      changed := by
  have hdir : ∀ s, S.dir (S.exec read s).2 = S.dir s := S.dir_read hread
  have hask : ∀ w : World σ, ¬ read.mutating = true := fun _ h =>
    absurd (hread.symm.trans h) Bool.false_ne_true
  constructor
  case follows =>
    intro check w
    simp only [KrgAd.ensure]
    split_ifs
    · exact (Follows.ask _ _ w).trans (.say _ _)
    · exact .ask _ _ w
    · exact (Follows.ask _ _ w).trans (.say _ _)
    · exact ((Follows.ask _ _ w).trans (.ask _ _ _)).trans (.say _ _)
    · exact ((Follows.ask _ _ w).trans (.ask _ _ _)).trans (.say _ _)
  case harmless =>
    intro w hw
    have hmutated : Mutated (w.ask S.exec read).2 → Mutated w := fun h =>
      (mutated_ask.mp h).resolve_right (hask w)
    simp only [KrgAd.ensure, ↓reduceIte] at hw
    split_ifs at hw
    · exact hmutated hw
    · exact hmutated hw
    · exact hmutated hw
  case alike =>
    intro w
    have hissued : ∀ line, Mutated (((w.ask S.exec read).2.ask S.exec change).2.say line) :=
      fun line => (Follows.say _ line).mutated (mutated_ask.mpr (.inr hchange))
    simp only [KrgAd.ensure, ↓reduceIte, Bool.false_eq_true]
    split_ifs
    · exact .inl rfl
    · exact .inl rfl
    · exact .inr ⟨would_say _ _, hissued _⟩
    · exact .inr ⟨would_say _ _, hissued _⟩
  case honest =>
    intro w hw
    simp only [KrgAd.ensure, ↓reduceIte, Bool.false_eq_true] at hw
    split_ifs at hw
    · exact would_of_say hw rfl
    · exact hw
    · exact would_of_say hw rfl
    · exact would_of_say hw rfl
  case grows =>
    intro check w
    have hafter : (S.dir w.state).Le (S.dir (S.exec change (S.exec read w.state).2).2) := by
      rw [← hdir w.state]
      exact S.dir_le hadds _
    simp only [KrgAd.ensure]
    split_ifs
    · exact (hdir w.state).symm ▸ .refl _
    · exact (hdir w.state).symm ▸ .refl _
    · exact (hdir w.state).symm ▸ .refl _
    · exact hafter
    · exact hafter
  case reached =>
    intro w hw
    simp only [KrgAd.ensure, ↓reduceIte, Bool.false_eq_true] at hw ⊢
    split_ifs at hw ⊢ with hrc hthere hrc'
    · exact absurd (failed_say _ _) hw
    · exact (hdir w.state).symm ▸ (hpresent w.state (not_not.mp hrc)).mp hthere
    · exact absurd (failed_say _ _) hw
    · have heffect := S.effect change (S.exec read w.state).2 (not_not.mp hrc')
      show H (S.dir (S.exec change (S.exec read w.state).2).2)
      rw [heffect]
      exact hbrings _
  case stays =>
    intro w hH hw
    simp only [KrgAd.ensure, ↓reduceIte, Bool.false_eq_true] at hw
    split_ifs at hw with hrc hthere hrc'
    · exact (mutated_ask.mp hw).resolve_right (hask w)
    · exact (mutated_ask.mp hw).resolve_right (hask w)
    · exact absurd ((hpresent w.state (not_not.mp hrc)).mpr hH) hthere
    · exact absurd ((hpresent w.state (not_not.mp hrc)).mpr hH) hthere

end Sound

/-! ### Members of groups -/

/-- A group has a member. -/
def HasMember (group member : String) (d : Directory) : Prop := member ∈ d.members group

theorem kept_member (group member : String) : Kept (HasMember group member) :=
  fun _ _ hle h => hle.members group h

theorem sound_member (S : Samba σ) (group member : String) :
    Sound S (HasMember group member) fun check => ensure_member S.exec check group member := by
  refine Sound.ensure rfl rfl (fun d => .addMembers d group member) (fun s hrc => ?_) fun d => ?_
  · rw [decide_eq_true_iff]
    exact mem_parse_name_list (S.list_members group s hrc) ((S.names s).2.2 group)
  · show member ∈ Function.update d.members group _ group
    rw [Function.update_self]
    exact Set.mem_insert _ _

/-! ### Service accounts -/

/-- An account is in its groups. -/
def InGroups (acc : AccountSpec) (d : Directory) : Prop :=
  ∀ group ∈ acc.member_of, HasMember group acc.name d

theorem kept_inGroups (acc : AccountSpec) : Kept (InGroups acc) :=
  fun _ _ hle h group hgroup => kept_member group acc.name hle (h group hgroup)

theorem sound_account (S : Samba σ) (live_users : List String) (acc : AccountSpec) :
    Sound S (InGroups acc) fun check w => account S.exec check live_users w acc := by
  by_cases hlive : acc.name ∈ live_users
  · have hgroups := Sound.foldl (S := S) (H := fun group => HasMember group acc.name) acc.member_of
      (fun group _ => sound_member S group acc.name) fun group => kept_member group acc.name
    simp only [account, hlive, not_true_eq_false, ↓reduceIte]
    exact hgroups
  · simpa only [account, hlive, not_false_eq_true, ↓reduceIte] using Sound.fail S _ _

theorem sound_accounts (S : Samba σ) (accounts : List AccountSpec) :
    Sound S (fun d => ∀ acc ∈ accounts, InGroups acc d) fun check =>
      cmd_service_accounts S.exec check accounts := by
  refine Sound.ask (c := .userList) (k := fun a check w =>
    if a.rc ≠ 0 then w.say (.fail ("user list failed: " ++ a.reason))
    else (accounts.foldl (account S.exec check (parse_name_list a.out)) w).close) rfl fun s => ?_
  by_cases hrc : (S.exec .userList s).1.rc = 0
  · have hall := Sound.foldl (S := S) (H := InGroups) accounts
      (fun acc _ => sound_account S (parse_name_list (S.exec .userList s).1.out) acc) kept_inGroups
    have hkept : Kept fun d => ∀ acc ∈ accounts, InGroups acc d :=
      fun _ _ hle h acc hacc => kept_inGroups acc hle (h acc hacc)
    have hclose := (hall.andThen (Sound.close S) hkept fun _ _ _ h => h).congr fun d =>
      and_iff_left trivial
    simpa only [hrc, ne_eq, not_true_eq_false, ↓reduceIte] using hclose
  · simpa only [ne_eq, hrc, not_false_eq_true, ↓reduceIte] using Sound.fail S _ _

/-! ### Delegations -/

/-- An ACE is there that grants a right to a trustee. -/
def Granted (S : Samba σ) (ace : AceSpec) (d : Directory) : Prop :=
  ∀ guid, RIGHTS.lookup ace.right = some guid →
    ∃ a ∈ d.aces ace.objectdn, ace_present a guid (S.sid ace.trustee) = true

theorem kept_granted (S : Samba σ) (ace : AceSpec) : Kept (Granted S ace) := by
  intro d d' hle h guid hguid
  obtain ⟨a, ha, hpresent⟩ := h guid hguid
  exact ⟨a, hle.aces _ ha, hpresent⟩

theorem sound_ace (S : Samba σ) (ace : AceSpec) {guid flags : String}
    (hguid : RIGHTS.lookup ace.right = some guid)
    (hflags : INHERIT_FLAGS.lookup ace.inherit = some flags) :
    Sound S (Granted S ace) fun check =>
      ensure_ace S.exec check ace guid flags (S.sid ace.trustee) := by
  have hplain : ∀ l : List (String × String), (∀ item ∈ l, '(' ∉ item.2.toList ∧
      '\n' ∉ item.2.toList) → ∀ {key value}, l.lookup key = some value →
        '(' ∉ value.toList ∧ '\n' ∉ value.toList := by
    intro l
    induction l with
    | nil => exact fun _ _ _ h => nomatch h
    | cons item l ih =>
      intro h key value hvalue
      obtain ⟨hitem, hl⟩ := List.forall_mem_cons.mp h
      rw [List.lookup_cons] at hvalue
      split at hvalue
      · exact Option.some_inj.mp hvalue ▸ hitem
      · exact ih hl hvalue
  obtain ⟨hname, hparen⟩ := S.sid_name ace.trustee
  have hnewline : '\n' ∉ (S.sid ace.trustee).toList := fun hmem =>
    absurd (hname.no_break '\n' hmem) (by decide)
  refine Sound.ensure rfl rfl (fun d => .dsaclSet d _ _) (fun s hrc => ?_) fun d => ?_
  · have hprints := S.dsacl_get ace.objectdn s hrc
    constructor
    · intro h guid' hguid'
      obtain rfl := Option.some_inj.mp (hguid.symm.trans hguid')
      exact hprints.found _ _ h
    · intro h
      obtain ⟨a, ha, hpresent⟩ := h guid hguid
      exact ace_present_append (hprints.printed a ha) hpresent
  · intro guid' hguid'
    obtain rfl := Option.some_inj.mp (hguid.symm.trans hguid')
    refine ⟨build_ace flags guid (S.sid ace.trustee), ?_, ?_⟩
    · show _ ∈ Function.update d.aces ace.objectdn _ ace.objectdn
      rw [Function.update_self]
      exact Set.mem_insert _ _
    · exact ace_present_built (hplain _ (by decide) hflags) (hplain _ (by decide) hguid)
        ⟨hparen, hnewline⟩

/-- What follows the answer for a user of that name. -/
def with_user_sid (exec : Command → σ → Answer × σ) (name : String)
    (k : Bool → Option String → World σ → World σ) (a : Answer) (check : Bool) (w : World σ) :
    World σ :=
  match if a.rc ≠ 0 then none else sid_of a.out with
  | some sid => k check (some sid) w
  | none =>
    k check (if (w.ask exec (.showSid "group" name)).1.rc ≠ 0 then none
      else sid_of (w.ask exec (.showSid "group" name)).1.out)
      (w.ask exec (.showSid "group" name)).2

theorem with_user_sid_some {exec : Command → σ → Answer × σ} {name sid : String} {a : Answer}
    {k : Bool → Option String → World σ → World σ}
    (h : (if a.rc ≠ 0 then none else sid_of a.out) = some sid) :
    with_user_sid exec name k a = fun check => k check (some sid) := by
  funext check w
  simp only [with_user_sid, h]

theorem with_user_sid_none {exec : Command → σ → Answer × σ} {name : String} {a : Answer}
    {k : Bool → Option String → World σ → World σ}
    (h : (if a.rc ≠ 0 then none else sid_of a.out) = none) :
    with_user_sid exec name k a = fun check w =>
      k check (if (w.ask exec (.showSid "group" name)).1.rc ≠ 0 then none
        else sid_of (w.ask exec (.showSid "group" name)).1.out)
        (w.ask exec (.showSid "group" name)).2 := by
  funext check w
  simp only [with_user_sid, h]

/-- The SID of a name is resolved to the one that it has, or not at all. -/
theorem sound_with_sid {H : Directory → Prop} (name : String)
    {k : Bool → Option String → World σ → World σ} (hsome : Sound S H fun check =>
      k check (some (S.sid name))) (hnone : Sound S H fun check => k check none) :
    Sound S H fun check => with_sid S.exec name (k check) := by
  have hresolved : ∀ kind s, (if (S.exec (.showSid kind name) s).1.rc ≠ 0 then none
      else sid_of (S.exec (.showSid kind name) s).1.out) = none ∨
      (if (S.exec (.showSid kind name) s).1.rc ≠ 0 then none
      else sid_of (S.exec (.showSid kind name) s).1.out) = some (S.sid name) := by
    intro kind s
    by_cases hrc : (S.exec (.showSid kind name) s).1.rc = 0
    · rw [if_neg (not_not.mpr hrc)]
      exact .inr (sid_of_printed (S.show_sid kind name s hrc) (S.sid_name name).1)
    · rw [if_pos hrc]
      exact .inl rfl
  refine Sound.ask (c := .showSid "user" name) (k := with_user_sid S.exec name k) rfl fun s => ?_
  obtain h | h := hresolved "user" s
  · rw [with_user_sid_none h]
    refine Sound.ask (c := .showSid "group" name) (k := fun b check =>
      k check (if b.rc ≠ 0 then none else sid_of b.out)) rfl fun s => ?_
    obtain h | h := hresolved "group" s
    · simpa only [h] using hnone
    · simpa only [h] using hsome
  · rw [with_user_sid_some h]
    exact hsome

theorem sound_acl (S : Samba σ) (ace : AceSpec) :
    Sound S (Granted S ace) fun check w => acl S.exec check w ace := by
  cases hguid : RIGHTS.lookup ace.right with
  | none => simpa only [acl, hguid] using Sound.fail S _ _
  | some guid =>
    cases hflags : INHERIT_FLAGS.lookup ace.inherit with
    | none => simpa only [acl, hguid, hflags] using Sound.fail S _ _
    | some flags =>
      simp only [acl, hguid, hflags]
      refine sound_with_sid ace.trustee ?_ (Sound.fail S _ _)
      have hsid := (S.sid_name ace.trustee).1.ne_empty
      simpa only [hsid, ↓reduceIte] using sound_ace S ace hguid hflags

theorem sound_acls (S : Samba σ) (acls : List AceSpec) :
    Sound S (fun d => ∀ ace ∈ acls, Granted S ace d) fun check => cmd_acls S.exec check acls := by
  have hall := Sound.foldl (S := S) (H := Granted S) acls (fun ace _ => sound_acl S ace)
    (kept_granted S)
  have hkept : Kept fun d => ∀ ace ∈ acls, Granted S ace d :=
    fun _ _ hle h ace hace => kept_granted S ace hle (h ace hace)
  exact (hall.andThen (Sound.close S) hkept fun _ _ _ h => h).congr fun d => and_iff_left trivial

end KrgAd
