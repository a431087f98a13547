/-
Outline group sync: the target is reached, and an interrupted run is resumed.

A server that is part of the way is again a snapshot the planner accepts: whatever bears
the name or the external id of an LDAP group there is the group that the plan works on,
under its old or its new label.  And the goal seen from there is the goal seen from the
start.  So the plan made after an interruption leads where the first plan would have led,
and a server that is at its goal gets an empty plan.

* `Place`, `Partial.claims_iff` — the group of an LDAP group, on the way;
* `Partial.accepts` — no check of the planner trips over a partial state;
* `Partial.reached` — the goal from a partial state is the goal from the start;
* `plan_sync_target` and `plan_sync_resumes` — the two results.
-/
import KrgInfra.OutlineConverge

namespace GroupSync

namespace Directory

variable {D : Directory} {S T F : Outline} {memberships : List (String × List String)}

/-- `t` is the group of `g`: the one `g` has at the start, or the one made for it. -/
def Place (D : Directory) (S : Outline) (g : LdapGroup) (t : ServerGroup) : Prop :=
  (∃ s ∈ S.groups, s.id = t.id ∧ D.target S.outline_groups g = some s.toOutlineGroup) ∨
    (D.target S.outline_groups g = none ∧ (∀ s ∈ S.groups, s.id ≠ t.id) ∧ t.name = g.name)

section Accepted

variable (h : D.Accepts S.outline_groups memberships)
include h

theorem Accepts.claims_of {g : LdapGroup} (hg : g ∈ D.ldap_groups) {s : ServerGroup}
    (hs : s ∈ S.groups) :
    D.Claims g s.toOutlineGroup ↔ D.target S.outline_groups g = some s.toOutlineGroup := by
  rw [h.target_claims hg]
  exact ⟨fun hc => ⟨Outline.mem_outline_groups.mpr ⟨s, hs, rfl⟩, hc⟩, fun hc => hc.2⟩

/-- The label an Outline group is to have: that of its LDAP group, or its own. -/
theorem Accepts.wanted_label {s : ServerGroup} :
    (∃ g ∈ D.ldap_groups, D.target S.outline_groups g = some s.toOutlineGroup ∧
      D.wanted S s = D.full g s) ∨
    ((∀ g ∈ D.ldap_groups, D.target S.outline_groups g ≠ some s.toOutlineGroup) ∧
      D.wanted S s = if D.Tagged s.toOutlineGroup then { s with members := [] } else s) := by
  unfold wanted
  cases hsrc : D.source S s.toOutlineGroup with
  | some g =>
    obtain ⟨hg, ht⟩ := h.source_iff.mp hsrc
    exact .inl ⟨g, hg, ht, rfl⟩
  | none =>
    refine .inr ⟨fun g hg ht => ?_, rfl⟩
    exact nomatch hsrc.symm.trans (h.source_iff.mpr ⟨hg, ht⟩)

section Partial

variable (hp : Partial D S T)
include hp

omit h in
/-- A group that is not of `S` bears the label of the LDAP group it was made for. -/
theorem Partial.new_label {t : ServerGroup} (ht : t ∈ T.groups)
    (hnew : ∀ s ∈ S.groups, s.id ≠ t.id) : ∃ g ∈ D.ldap_groups,
      D.target S.outline_groups g = none ∧ t.name = g.name ∧ t.externalId = some (D.ext g) ∧
        t.externalGroup = false := by
  obtain ⟨g, hg, htar, hb⟩ := hp.new t ht hnew
  refine ⟨g, hg, htar, ?_⟩
  obtain hl | hl := hb.label
  · exact ⟨hl.1, hl.2, hb.externalGroup⟩
  · exact ⟨hl.1, hl.2, hb.externalGroup⟩

/-- What a group's label can be on the way: its old one, or that of the LDAP group
whose Outline group it is. -/
theorem Accepts.old_label {s t : ServerGroup} (hs : s ∈ S.groups) (ht : t ∈ T.groups)
    (hid : s.id = t.id) : (t.name = s.name ∧ t.externalId = s.externalId) ∨
      ∃ g ∈ D.ldap_groups, D.target S.outline_groups g = some s.toOutlineGroup ∧
        t.name = g.name ∧ t.externalId = some (D.ext g) := by
  obtain ⟨t', ht', hid', hb⟩ := hp.old s hs
  obtain rfl := Outline.group_inj ht' ht (hid'.trans hid)
  obtain hl | hl := hb.label
  · exact .inl hl
  · obtain ⟨g, hg, htar, hw⟩ | ⟨-, hw⟩ := h.wanted_label (s := s)
    · rw [hw] at hl
      exact .inr ⟨g, hg, htar, hl⟩
    · rw [hw] at hl
      refine .inl ?_
      split_ifs at hl
      · exact hl
      · exact hl

theorem Accepts.externalGroup_old {s t : ServerGroup} (hs : s ∈ S.groups) (ht : t ∈ T.groups)
    (hid : s.id = t.id) : t.externalGroup = s.externalGroup := by
  obtain ⟨t', ht', hid', hb⟩ := hp.old s hs
  obtain rfl := Outline.group_inj ht' ht (hid'.trans hid)
  rw [hb.externalGroup]
  obtain ⟨g, -, -, hw⟩ | ⟨-, hw⟩ := h.wanted_label (s := s)
  · rw [hw]
    rfl
  · rw [hw]
    split_ifs
    · rfl
    · rfl

/-- Whatever bears the name or the external id of an LDAP group is its group. -/
theorem Accepts.claims_iff {g : LdapGroup} (hg : g ∈ D.ldap_groups) {t : ServerGroup}
    (ht : t ∈ T.groups) : D.Claims g t.toOutlineGroup ↔ D.Place S g t := by
  have hsame : ∀ {g'}, g' ∈ D.ldap_groups → t.name = g'.name → t.externalId = some (D.ext g') →
      D.Claims g t.toOutlineGroup → g' = g := by
    rintro g' hg' hn he (hc | hc)
    · exact h.names.inj hg' hg (hn.symm.trans hc)
    · have he' : t.external = D.ext g' := by simp [OutlineGroup.external, he]
      exact h.pks.inj hg' hg (ext_inj.mp (he'.symm.trans hc))
  constructor
  · intro hc
    by_cases hold : ∃ s ∈ S.groups, s.id = t.id
    · obtain ⟨s, hs, hid⟩ := hold
      refine .inl ⟨s, hs, hid, ?_⟩
      obtain ⟨hn, he⟩ | ⟨g', hg', htar, hn, he⟩ := h.old_label hp hs ht hid
      · refine (h.claims_of hg hs).mp ?_
        unfold Claims OutlineGroup.external
        rw [← hn, ← he]
        exact hc
      · rwa [← hsame hg' hn he hc]
    · have hnew : ∀ s ∈ S.groups, s.id ≠ t.id := fun s hs hid => hold ⟨s, hs, hid⟩
      obtain ⟨g', hg', htar, hn, he, -⟩ := hp.new_label ht hnew
      obtain rfl := hsame hg' hn he hc
      exact .inr ⟨htar, hnew, hn⟩
  · rintro (⟨s, hs, hid, htar⟩ | ⟨-, -, hn⟩)
    · obtain ⟨hn, he⟩ | ⟨g', hg', htar', hn, he⟩ := h.old_label hp hs ht hid
      · have hc := (h.claims_of hg hs).mpr htar
        unfold Claims OutlineGroup.external at hc ⊢
        rw [hn, he]
        exact hc
      · obtain rfl := h.target_inj S.outline_ids_nodup hg' hg htar' htar rfl
        exact .inl hn
    · exact .inl hn

omit h in
/-- An LDAP group has one group. -/
theorem Partial.place_inj {g : LdapGroup} {t t' : ServerGroup}
    (ht : t ∈ T.groups) (ht' : t' ∈ T.groups) (hpl : D.Place S g t) (hpl' : D.Place S g t') :
    t = t' := by
  obtain ⟨s, hs, hid, htar⟩ | ⟨htar, hnew, hn⟩ := hpl
  · obtain ⟨s', hs', hid', htar'⟩ | ⟨htar', -⟩ := hpl'
    · have ho := Option.some.inj (htar.symm.trans htar')
      have hss : s.id = s'.id := congrArg OutlineGroup.id ho
      exact Outline.group_inj ht ht' (hid.symm.trans (hss.trans hid'))
    · exact nomatch htar.symm.trans htar'
  · obtain ⟨s', -, -, htar'⟩ | ⟨-, hnew', hn'⟩ := hpl'
    · exact nomatch htar.symm.trans htar'
    · exact hp.apart t ht t' ht' hnew hnew' (hn.trans hn'.symm)

omit hp in
/-- A group is the group of one LDAP group. -/
theorem Accepts.place_source {g g' : LdapGroup} (hg : g ∈ D.ldap_groups)
    (hg' : g' ∈ D.ldap_groups) {t : ServerGroup} (hpl : D.Place S g t) (hpl' : D.Place S g' t) :
    g = g' := by
  obtain ⟨s, hs, hid, htar⟩ | ⟨-, hnew, hn⟩ := hpl
  · obtain ⟨s', hs', hid', htar'⟩ | ⟨-, hnew', -⟩ := hpl'
    · exact h.target_inj S.outline_ids_nodup hg hg' htar htar' (hid.trans hid'.symm)
    · exact absurd hid (hnew' s hs)
  · obtain ⟨s', hs', hid', -⟩ | ⟨-, -, hn'⟩ := hpl'
    · exact absurd hid' (hnew s' hs')
    · exact h.names.inj hg hg' (hn.symm.trans hn')

/-- A group is that of an LDAP group, or is of `S` and bears its old label, which no LDAP
group claims. -/
theorem Accepts.place_or {t : ServerGroup} (ht : t ∈ T.groups) :
    (∃ g ∈ D.ldap_groups, D.Place S g t) ∨ ∃ s ∈ S.groups, s.id = t.id ∧
      (∀ g ∈ D.ldap_groups, D.target S.outline_groups g ≠ some s.toOutlineGroup) ∧
      t.name = s.name ∧ t.externalId = s.externalId := by
  by_cases hold : ∃ s ∈ S.groups, s.id = t.id
  · obtain ⟨s, hs, hid⟩ := hold
    by_cases hsrc : ∃ g ∈ D.ldap_groups, D.target S.outline_groups g = some s.toOutlineGroup
    · obtain ⟨g, hg, htar⟩ := hsrc
      exact .inl ⟨g, hg, .inl ⟨s, hs, hid, htar⟩⟩
    · have hsrc : ∀ g ∈ D.ldap_groups, D.target S.outline_groups g ≠ some s.toOutlineGroup :=
        fun g hg htar => hsrc ⟨g, hg, htar⟩
      obtain hl | ⟨g, hg, htar, -⟩ := h.old_label hp hs ht hid
      · exact .inr ⟨s, hs, hid, hsrc, hl⟩
      · exact absurd htar (hsrc g hg)
  · have hnew : ∀ s ∈ S.groups, s.id ≠ t.id := fun s hs hid => hold ⟨s, hs, hid⟩
    obtain ⟨g, hg, htar, hn, -⟩ := hp.new_label ht hnew
    exact .inl ⟨g, hg, .inr ⟨htar, hnew, hn⟩⟩

end Partial

end Accepted

/-! ### The memberships that `reconcile` reads -/

/-- The groups whose memberships are read: those that the planner can ask about. -/
def Relevant (D : Directory) (t : ServerGroup) : Prop :=
  t.name ∈ D.ldap_groups.map LdapGroup.name ∨ D.Tagged t.toOutlineGroup

instance (t : ServerGroup) : Decidable (D.Relevant t) := inferInstanceAs (Decidable (_ ∨ _))

def reads (D : Directory) (T : Outline) : List (String × List String) :=
  read_memberships D.source_id D.ldap_groups T

theorem lookup_reads {id : String} : (D.reads T).lookup id =
    ((T.groups.filter fun t => D.Relevant t).find? fun t => t.id = id).map (·.members) :=
  lookup_rows

theorem lookup_relevant {t : ServerGroup} (ht : t ∈ T.groups) (hrel : D.Relevant t) :
    (D.reads T).lookup t.id = some t.members := by
  rw [lookup_reads]
  cases hf : (T.groups.filter fun t => D.Relevant t).find? (fun t' => t'.id = t.id) with
  | none =>
    have hnone := List.find?_eq_none.mp hf t (List.mem_filter.mpr ⟨ht, by simpa using hrel⟩)
    simp at hnone
  | some t' =>
    have hid : t'.id = t.id := by simpa using List.find?_some hf
    have ht' := List.mem_of_mem_filter (List.mem_of_find?_eq_some hf)
    rw [Outline.group_inj ht' ht hid]
    rfl

theorem reads_reads : Reads (D.reads T) T := by
  intro id members hl
  rw [lookup_reads] at hl
  obtain ⟨t, hf, rfl⟩ := Option.map_eq_some_iff.mp hl
  have hid : t.id = id := by simpa using List.find?_some hf
  exact ⟨t, List.mem_of_mem_filter (List.mem_of_find?_eq_some hf), hid, fun _ => Iff.rfl⟩

theorem relevant_of_claims {g : LdapGroup} (hg : g ∈ D.ldap_groups) {t : ServerGroup}
    (hc : D.Claims g t.toOutlineGroup) : D.Relevant t := by
  obtain hn | he := hc
  · exact .inl (List.mem_map.mpr ⟨g, hg, hn.symm⟩)
  · exact .inr (tagged_of_external he)

/-! ### A partial state is accepted -/

section Partial

variable (h : D.Accepts S.outline_groups memberships) (hp : Partial D S T)
include h hp

theorem Partial.names : Indexed OutlineGroup.name T.outline_groups := by
  constructor
  · intro o ho
    obtain ⟨t, ht, rfl⟩ := Outline.mem_outline_groups.mp ho
    obtain ⟨g, hg, hpl⟩ | ⟨s, hs, -, -, hn, -⟩ := h.place_or hp ht
    · obtain ⟨s, hs, hid, htar⟩ | ⟨-, -, hn⟩ := hpl
      · obtain ⟨hn, -⟩ | ⟨g', hg', -, hn, -⟩ := h.old_label hp hs ht hid
        · rw [hn]
          exact h.outline_names.ne_empty _ (Outline.mem_outline_groups.mpr ⟨s, hs, rfl⟩)
        · rw [hn]
          exact h.names.ne_empty g' hg'
      · rw [hn]
        exact h.names.ne_empty g hg
    · rw [hn]
      exact h.outline_names.ne_empty _ (Outline.mem_outline_groups.mpr ⟨s, hs, rfl⟩)
  · have hinj : ∀ t ∈ T.groups, ∀ t' ∈ T.groups, t.name = t'.name → t = t' := by
      intro t ht t' ht' hn
      by_cases hc : ∃ g ∈ D.ldap_groups, t.name = g.name
      · obtain ⟨g, hg, hng⟩ := hc
        exact hp.place_inj ht ht' ((h.claims_iff hp hg ht).mp (.inl hng))
          ((h.claims_iff hp hg ht').mp (.inl (hn.symm.trans hng)))
      · -- neither bears an LDAP group's name, so both bear their old names
        have hold : ∀ {x : ServerGroup}, x ∈ T.groups → x.name = t.name →
            ∃ s ∈ S.groups, s.id = x.id ∧ x.name = s.name := by
          intro x hx hxt
          by_cases hs : ∃ s ∈ S.groups, s.id = x.id
          · obtain ⟨s, hs, hid⟩ := hs
            obtain ⟨hl, -⟩ | ⟨g, hg, -, hl, -⟩ := h.old_label hp hs hx hid
            · exact ⟨s, hs, hid, hl⟩
            · exact absurd ⟨g, hg, hxt.symm.trans hl⟩ hc
          · obtain ⟨g, hg, -, hl, -⟩ := hp.new_label hx fun s hs' hid => hs ⟨s, hs', hid⟩
            exact absurd ⟨g, hg, hxt.symm.trans hl⟩ hc
        obtain ⟨s, hs, hid, hns⟩ := hold ht rfl
        obtain ⟨s', hs', hid', hns'⟩ := hold ht' hn.symm
        have ho : s.toOutlineGroup = s'.toOutlineGroup := h.outline_names.inj
          (Outline.mem_outline_groups.mpr ⟨s, hs, rfl⟩)
          (Outline.mem_outline_groups.mpr ⟨s', hs', rfl⟩) (hns.symm.trans (hn.trans hns'))
        have hss : s.id = s'.id := congrArg OutlineGroup.id ho
        exact Outline.group_inj ht ht' (hid.symm.trans (hss.trans hid'))
    rw [Outline.outline_groups, List.map_map]
    exact (T.ids_nodup.of_map).map_on hinj

theorem Partial.externals :
    Indexed OutlineGroup.external (T.outline_groups.filter (·.external ≠ "")) := by
  constructor
  · intro o ho
    simpa using (List.mem_filter.mp ho).2
  · refine List.Nodup.map_on ?_ ((T.outline_ids_nodup.of_map).filter _)
    intro o ho o' ho' he
    obtain ⟨ho, hne⟩ := List.mem_filter.mp ho
    obtain ⟨ho', -⟩ := List.mem_filter.mp ho'
    obtain ⟨t, ht, rfl⟩ := Outline.mem_outline_groups.mp ho
    obtain ⟨t', ht', rfl⟩ := Outline.mem_outline_groups.mp ho'
    suffices htt : t = t' by rw [htt]
    by_cases hc : ∃ g ∈ D.ldap_groups, t.external = D.ext g
    · obtain ⟨g, hg, heg⟩ := hc
      exact hp.place_inj ht ht' ((h.claims_iff hp hg ht).mp (.inr heg))
        ((h.claims_iff hp hg ht').mp (.inr (he.symm.trans heg)))
    · have hold : ∀ {x : ServerGroup}, x ∈ T.groups → x.external = t.external →
          ∃ s ∈ S.groups, s.id = x.id ∧ x.external = s.external := by
        intro x hx hxt
        by_cases hs : ∃ s ∈ S.groups, s.id = x.id
        · obtain ⟨s, hs, hid⟩ := hs
          obtain ⟨-, hl⟩ | ⟨g, hg, -, -, hl⟩ := h.old_label hp hs hx hid
          · exact ⟨s, hs, hid, by rw [OutlineGroup.external, hl]; rfl⟩
          · exact absurd ⟨g, hg, hxt.symm.trans (by simp [OutlineGroup.external, hl])⟩ hc
        · obtain ⟨g, hg, -, -, hl, -⟩ := hp.new_label hx fun s hs' hid => hs ⟨s, hs', hid⟩
          exact absurd ⟨g, hg, hxt.symm.trans (by simp [OutlineGroup.external, hl])⟩ hc
      obtain ⟨s, hs, hid, hes⟩ := hold ht rfl
      obtain ⟨s', hs', hid', hes'⟩ := hold ht' he.symm
      have hmem : ∀ {s : ServerGroup}, s ∈ S.groups → s.external = t.external →
          s.toOutlineGroup ∈ S.outline_groups.filter (·.external ≠ "") := by
        intro s hs hst
        refine List.mem_filter.mpr ⟨Outline.mem_outline_groups.mpr ⟨s, hs, rfl⟩, ?_⟩
        rw [hst]
        exact hne
      have ho : s.toOutlineGroup = s'.toOutlineGroup := h.externals.inj (hmem hs hes.symm)
        (hmem hs' (hes'.symm.trans he.symm)) (hes.symm.trans (he.trans hes'))
      have hss : s.id = s'.id := congrArg OutlineGroup.id ho
      exact Outline.group_inj ht ht' (hid.symm.trans (hss.trans hid'))

/-- The Outline group that the planner finds for an LDAP group is its group. -/
theorem Partial.target_iff {g : LdapGroup} (hg : g ∈ D.ldap_groups) {o : OutlineGroup} :
    D.target T.outline_groups g = some o ↔
      ∃ t ∈ T.groups, t.toOutlineGroup = o ∧ D.Place S g t := by
  have hagree : ∀ o o', T.outline_groups.find? (fun o => o.external = D.ext g) = some o →
      T.outline_groups.find? (fun o => o.name = g.name) = some o' → o.id = o'.id := by
    intro o o' ho ho'
    obtain ⟨hom, he⟩ := (owner_iff (hp.externals h)).mp ho
    obtain ⟨hom', hn⟩ := (hp.names h).find?_iff.mp ho'
    obtain ⟨t, ht, rfl⟩ := Outline.mem_outline_groups.mp hom
    obtain ⟨t', ht', rfl⟩ := Outline.mem_outline_groups.mp hom'
    rw [hp.place_inj ht ht' ((h.claims_iff hp hg ht).mp (.inr he))
      ((h.claims_iff hp hg ht').mp (.inl hn))]
  rw [Directory.target_iff (hp.names h) (hp.externals h) T.outline_ids_nodup hagree,
    Outline.mem_outline_groups]
  constructor
  · rintro ⟨⟨t, ht, rfl⟩, hc⟩
    exact ⟨t, ht, rfl, (h.claims_iff hp hg ht).mp hc⟩
  · rintro ⟨t, ht, rfl, hpl⟩
    exact ⟨⟨t, ht, rfl⟩, (h.claims_iff hp hg ht).mpr hpl⟩

theorem Partial.fits {g : LdapGroup} (hg : g ∈ D.ldap_groups) :
    D.Fits T.outline_groups (D.reads T) g := by
  refine ⟨?_, ?_, ?_⟩
  · intro o o' ho ho'
    obtain ⟨hom, he⟩ := (owner_iff (hp.externals h)).mp ho
    obtain ⟨hom', hn⟩ := (hp.names h).find?_iff.mp ho'
    obtain ⟨t, ht, rfl⟩ := Outline.mem_outline_groups.mp hom
    obtain ⟨t', ht', rfl⟩ := Outline.mem_outline_groups.mp hom'
    rw [hp.place_inj ht ht' ((h.claims_iff hp hg ht).mp (.inr he))
      ((h.claims_iff hp hg ht').mp (.inl hn))]
  · intro o ho
    obtain ⟨t, ht, rfl, hpl⟩ := (hp.target_iff h hg).mp ho
    obtain ⟨s, hs, hid, htar⟩ | ⟨htar, hnew, hn⟩ := hpl
    · obtain ⟨hgroup, hown⟩ := (h.fits g hg).own _ htar
      refine ⟨(h.externalGroup_old hp hs ht hid).trans hgroup, ?_⟩
      obtain ⟨-, he⟩ | ⟨g', hg', htar', -, he⟩ := h.old_label hp hs ht hid
      · rw [he]
        exact hown
      · obtain rfl := h.target_inj S.outline_ids_nodup hg' hg htar' htar rfl
        simp [he]
    · obtain ⟨g', hg', -, hn', he, hgroup⟩ := hp.new_label ht hnew
      obtain rfl := h.names.inj hg' hg (hn'.symm.trans hn)
      exact ⟨hgroup, by simp [he]⟩
  · intro o ho
    obtain ⟨t, ht, rfl, hpl⟩ := (hp.target_iff h hg).mp ho
    have hrel := relevant_of_claims hg ((h.claims_iff hp hg ht).mpr hpl)
    rw [lookup_relevant ht hrel]
    rfl

theorem Partial.used_iff {t : ServerGroup} (ht : t ∈ T.groups) :
    t.id ∈ D.used T.outline_groups ↔ ∃ g ∈ D.ldap_groups, D.Place S g t := by
  unfold used
  rw [List.mem_filterMap]
  constructor
  · rintro ⟨g, hg, ho⟩
    obtain ⟨o, ho, hid⟩ := Option.map_eq_some_iff.mp ho
    obtain ⟨t', ht', rfl, hpl⟩ := (hp.target_iff h hg).mp ho
    obtain rfl := Outline.group_inj ht' ht hid
    exact ⟨g, hg, hpl⟩
  · rintro ⟨g, hg, hpl⟩
    refine ⟨g, hg, ?_⟩
    rw [(hp.target_iff h hg).mpr ⟨t, ht, rfl, hpl⟩]
    rfl

theorem Partial.apart_used : (D.used T.outline_groups).Nodup := by
  unfold used
  refine List.pairwise_filterMap.mpr ((List.Nodup.of_map _ h.pks.nodup).imp_of_mem ?_)
  intro g g' hg hg' hne id hid id' hid' he
  obtain ⟨o, ho, rfl⟩ := Option.map_eq_some_iff.mp hid
  obtain ⟨o', ho', rfl⟩ := Option.map_eq_some_iff.mp hid'
  obtain ⟨t, ht, rfl, hpl⟩ := (hp.target_iff h hg).mp ho
  obtain ⟨t', ht', rfl, hpl'⟩ := (hp.target_iff h hg').mp ho'
  obtain rfl := Outline.group_inj ht ht' he
  exact hne (h.place_source hg hg' hpl hpl')

/-- **The planner accepts a partial state.** -/
theorem Partial.accepts : D.Accepts T.outline_groups (D.reads T) where
  pks := h.pks
  names := h.names
  outline_names := hp.names h
  externals := hp.externals h
  ak_emails := h.ak_emails
  ol_emails := h.ol_emails
  fits _ hg := hp.fits h hg
  apart := hp.apart_used h
  orphans o ho htag hu := by
    obtain ⟨t, ht, rfl⟩ := Outline.mem_outline_groups.mp ho
    have hrel : D.Relevant t := .inr htag
    refine ⟨?_, by rw [lookup_relevant ht hrel]; rfl⟩
    obtain hpl | ⟨s, hs, hid, hsrc, -, he⟩ := h.place_or hp ht
    · exact absurd ((hp.used_iff h ht).mpr hpl) hu
    · have hstag : D.Tagged s.toOutlineGroup := by
        unfold Tagged OutlineGroup.external at htag ⊢
        rwa [← he]
      have hsu : s.id ∉ D.used S.outline_groups := by
        rw [h.used_iff hs]
        rintro ⟨g, hg, htar⟩
        exact hsrc g hg htar
      have hso : s.toOutlineGroup ∈ S.outline_groups := Outline.mem_outline_groups.mpr ⟨s, hs, rfl⟩
      exact (h.externalGroup_old hp hs ht hid).trans (h.orphans _ hso hstag hsu).1

/-! ### The goal from a partial state -/

/-- A group's goal, seen from the way, is its goal seen from the start. -/
theorem Partial.wanted_old {s t : ServerGroup} (hs : s ∈ S.groups) (ht : t ∈ T.groups)
    (hid : s.id = t.id) : Same (D.wanted S s) (D.wanted T t) := by
  have hT := hp.accepts h
  have hgroup := h.externalGroup_old hp hs ht hid
  obtain ⟨g, hg, htar, hw⟩ | ⟨hsrc, hw⟩ := h.wanted_label (s := s)
  · have htar' : D.target T.outline_groups g = some t.toOutlineGroup :=
      (hp.target_iff h hg).mpr ⟨t, ht, rfl, .inl ⟨s, hs, hid, htar⟩⟩
    have hw' : D.wanted T t = D.full g t := by
      rw [← goal_old ht]
      exact hT.goal_target hg ht htar'
    rw [hw, hw']
    exact ⟨rfl, rfl, hgroup, fun _ => Iff.rfl⟩
  · have hsrc' : ∀ g ∈ D.ldap_groups, D.target T.outline_groups g ≠ some t.toOutlineGroup := by
      intro g hg htar
      obtain ⟨t', ht', hto, hpl⟩ := (hp.target_iff h hg).mp htar
      obtain rfl := Outline.group_inj ht' ht (congrArg OutlineGroup.id hto)
      obtain ⟨s', hs', hid', htar'⟩ | ⟨-, hnew, -⟩ := hpl
      · obtain rfl := Outline.group_inj hs' hs (hid'.trans hid.symm)
        exact hsrc g hg htar'
      · exact hnew s hs hid
    obtain ⟨t', ht', hid', hb⟩ := hp.old s hs
    obtain rfl := Outline.group_inj ht' ht (hid'.trans hid)
    obtain ⟨hn, he⟩ | ⟨g, hg, htar, -⟩ := h.old_label hp hs ht hid
    · obtain ⟨g, hg, htar, -⟩ | ⟨-, hw'⟩ := hT.wanted_label (s := t')
      · exact absurd htar (hsrc' g hg)
      · have htag : D.Tagged t'.toOutlineGroup ↔ D.Tagged s.toOutlineGroup := by
          unfold Tagged OutlineGroup.external
          rw [he]
        rw [hw'] at *
        rw [hw] at hb ⊢
        by_cases hst : D.Tagged s.toOutlineGroup
        · rw [if_pos hst, if_pos (htag.mpr hst)]
          exact ⟨hn, he, hgroup, fun _ => Iff.rfl⟩
        · rw [if_neg hst] at hb ⊢
          rw [if_neg (mt htag.mp hst)]
          exact ⟨hn, he, hgroup, fun u => ⟨fun hu => (hb.upper u hu).elim id id,
            fun hu => hb.lower u hu hu⟩⟩
    · exact absurd htar (hsrc g hg)

/-- The group made for an LDAP group is at its goal when it is at the goal seen from the
way. -/
theorem Partial.wanted_new {t : ServerGroup} (ht : t ∈ T.groups)
    (hnew : ∀ s ∈ S.groups, s.id ≠ t.id) : ∃ g ∈ D.ldap_groups,
      D.target S.outline_groups g = none ∧ D.Place S g t ∧ Same (D.fresh g) (D.wanted T t) := by
  obtain ⟨g, hg, htar, hn, -, hgroup⟩ := hp.new_label ht hnew
  have hpl : D.Place S g t := .inr ⟨htar, hnew, hn⟩
  refine ⟨g, hg, htar, hpl, ?_⟩
  have hw : D.wanted T t = D.full g t := by
    rw [← goal_old ht]
    exact (hp.accepts h).goal_target hg ht ((hp.target_iff h hg).mpr ⟨t, ht, rfl, hpl⟩)
  rw [hw]
  exact ⟨rfl, rfl, hgroup, fun _ => Iff.rfl⟩

/-- What the goal from a partial state has in a place that `S` does not have. -/
theorem Partial.reached_new (hF : Reached D T F) {t' : ServerGroup} (ht' : t' ∈ F.groups)
    (hnew : ∀ s ∈ S.groups, s.id ≠ t'.id) : ∃ g ∈ D.ldap_groups,
      D.target S.outline_groups g = none ∧ Same (D.fresh g) t' ∧
      ((∃ t ∈ T.groups, t.id = t'.id ∧ D.Place S g t) ∨
        ((∀ t ∈ T.groups, t.id ≠ t'.id) ∧ D.target T.outline_groups g = none)) := by
  by_cases hT : ∃ t ∈ T.groups, t.id = t'.id
  · obtain ⟨t, ht, hid⟩ := hT
    obtain ⟨g, hg, htar, hpl, hsame⟩ := hp.wanted_new h ht fun s hs => hid ▸ hnew s hs
    obtain ⟨t₁, ht₁, hid₁, hsame₁⟩ := hF.old t ht
    obtain rfl := Outline.group_inj ht₁ ht' (hid₁.trans hid)
    exact ⟨g, hg, htar, hsame.trans hsame₁, .inl ⟨t, ht, hid, hpl⟩⟩
  · have hT : ∀ t ∈ T.groups, t.id ≠ t'.id := fun t ht hid => hT ⟨t, ht, hid⟩
    obtain ⟨g, hg, htar, hsame⟩ := hF.new t' ht' hT
    refine ⟨g, hg, ?_, hsame, .inr ⟨hT, htar⟩⟩
    obtain hS | ⟨s, hs, hS⟩ := h.target_cases hg
    · exact hS
    · obtain ⟨t, ht, hid, -⟩ := hp.old s hs
      have hsome := (hp.target_iff h hg).mpr ⟨t, ht, rfl, .inl ⟨s, hs, hid.symm, hS⟩⟩
      exact nomatch htar.symm.trans hsome

/-- **The goal from a partial state is the goal from the start.** -/
theorem Partial.reached (hF : Reached D T F) : Reached D S F := by
  refine ⟨hF.users.trans hp.users, ?_, ?_, ?_, ?_⟩
  · intro s hs
    obtain ⟨t, ht, hid, -⟩ := hp.old s hs
    obtain ⟨t', ht', hid', hsame⟩ := hF.old t ht
    exact ⟨t', ht', hid'.trans hid, (hp.wanted_old h hs ht hid.symm).trans hsame⟩
  · intro g hg htar
    cases hT : D.target T.outline_groups g with
    | none =>
      obtain ⟨t', ht', hnew, hsame⟩ := hF.made g hg hT
      refine ⟨t', ht', fun s hs he => ?_, hsame⟩
      obtain ⟨t, ht, hid, -⟩ := hp.old s hs
      exact hnew t ht (hid.trans he)
    | some o =>
      obtain ⟨t, ht, rfl, hpl⟩ := (hp.target_iff h hg).mp hT
      obtain ⟨s, -, -, htar'⟩ | ⟨-, hnew, -⟩ := id hpl
      · exact nomatch htar.symm.trans htar'
      · obtain ⟨g', hg', -, hpl', hsame⟩ := hp.wanted_new h ht hnew
        obtain rfl := h.place_source hg hg' hpl hpl'
        obtain ⟨t', ht', hid, hsame'⟩ := hF.old t ht
        exact ⟨t', ht', fun s hs => hid ▸ hnew s hs, hsame.trans hsame'⟩
  · intro t' ht' hnew
    obtain ⟨g, hg, htar, hsame, -⟩ := hp.reached_new h hF ht' hnew
    exact ⟨g, hg, htar, hsame⟩
  · intro t₁ ht₁ t₂ ht₂ hnew₁ hnew₂ hname
    obtain ⟨g₁, hg₁, -, hs₁, hc₁⟩ := hp.reached_new h hF ht₁ hnew₁
    obtain ⟨g₂, hg₂, -, hs₂, hc₂⟩ := hp.reached_new h hF ht₂ hnew₂
    obtain rfl := h.names.inj hg₁ hg₂ (hs₁.name.symm.trans (hname.trans hs₂.name))
    obtain ⟨x₁, hx₁, hid₁, hpl₁⟩ | ⟨hT₁, htar₁⟩ := hc₁
    · obtain ⟨x₂, hx₂, hid₂, hpl₂⟩ | ⟨-, htar₂⟩ := hc₂
      · obtain rfl := hp.place_inj hx₁ hx₂ hpl₁ hpl₂
        exact Outline.group_inj ht₁ ht₂ (hid₁.symm.trans hid₂)
      · exact nomatch htar₂.symm.trans ((hp.target_iff h hg₁).mpr ⟨x₁, hx₁, rfl, hpl₁⟩)
    · obtain ⟨x₂, hx₂, -, hpl₂⟩ | ⟨hT₂, -⟩ := hc₂
      · exact nomatch htar₁.symm.trans ((hp.target_iff h hg₁).mpr ⟨x₂, hx₂, rfl, hpl₂⟩)
      · exact hF.apart t₁ ht₁ t₂ ht₂ hT₁ hT₂ hname

end Partial

/-! ### A server at its goal -/

theorem Reached.toPartial (hF : Reached D S F) : Partial D S F where
  users := hF.users
  old s hs := by
    obtain ⟨t, ht, hid, hsame⟩ := hF.old s hs
    refine ⟨t, ht, hid, hsame.externalGroup, .inr ⟨hsame.name, hsame.externalId⟩, ?_, ?_⟩
    · exact fun u hu => .inr ((hsame.members u).mp hu)
    · exact fun u _ hu => (hsame.members u).mpr hu
  new t ht hnew := by
    obtain ⟨g, hg, htar, hsame⟩ := hF.new t ht hnew
    refine ⟨g, hg, htar, hsame.externalGroup, .inr ⟨hsame.name, hsame.externalId⟩, ?_, by simp⟩
    exact fun u hu => .inr ((hsame.members u).mp hu)
  apart := hF.apart

/-- The group of an LDAP group, when the goal is reached. -/
theorem Reached.ldap (h : D.Accepts S.outline_groups memberships) (hF : Reached D S F)
    {g : LdapGroup} (hg : g ∈ D.ldap_groups) : ∃ t ∈ F.groups, D.Place S g t ∧
      t.name = g.name ∧ t.externalId = some (D.ext g) ∧ ∀ u, u ∈ t.members ↔ u ∈ D.desired g := by
  obtain htar | ⟨s, hs, htar⟩ := h.target_cases hg
  · obtain ⟨t, ht, hnew, hsame⟩ := hF.made g hg htar
    exact ⟨t, ht, .inr ⟨htar, hnew, hsame.name⟩, hsame.name, hsame.externalId, hsame.members⟩
  · obtain ⟨t, ht, hid, hsame⟩ := hF.old s hs
    rw [← goal_old hs, h.goal_target hg hs htar] at hsame
    exact ⟨t, ht, .inl ⟨s, hs, hid.symm, htar⟩, hsame.name, hsame.externalId, hsame.members⟩

/-- A group that carries this source's external id and is no LDAP group's is empty. -/
theorem Reached.gone (h : D.Accepts S.outline_groups memberships) (hF : Reached D S F)
    {t : ServerGroup} (ht : t ∈ F.groups) (htag : D.Tagged t.toOutlineGroup)
    (hnone : ∀ g ∈ D.ldap_groups, ¬ D.Place S g t) : t.members = [] := by
  obtain ⟨g, hg, hpl⟩ | ⟨s, hs, hid, hsrc, -, he⟩ := h.place_or hF.toPartial ht
  · exact absurd hpl (hnone g hg)
  · have hstag : D.Tagged s.toOutlineGroup := by
      unfold Tagged OutlineGroup.external at htag ⊢
      rwa [← he]
    have hsu : s.id ∉ D.used S.outline_groups := by
      rw [h.used_iff hs]
      rintro ⟨g, hg, htar⟩
      exact hsrc g hg htar
    obtain ⟨t', ht', hid', hsame⟩ := hF.old s hs
    obtain rfl := Outline.group_inj ht' ht (hid'.trans hid)
    rw [← goal_old hs, h.goal_orphan hs hstag hsu] at hsame
    exact List.eq_nil_iff_forall_not_mem.mpr fun u hu => nomatch (hsame.members u).mp hu

/-- A group that is none of the sync's business is as it was. -/
theorem Reached.other (h : D.Accepts S.outline_groups memberships) (hF : Reached D S F)
    {s : ServerGroup} (hs : s ∈ S.groups) (htag : ¬ D.Tagged s.toOutlineGroup)
    (hname : ∀ g ∈ D.ldap_groups, s.name ≠ g.name) : ∃ t ∈ F.groups, t.id = s.id ∧
      t.name = s.name ∧ t.externalId = s.externalId ∧ ∀ u, u ∈ t.members ↔ u ∈ s.members := by
  obtain ⟨t, ht, hid, hsame⟩ := hF.old s hs
  have hu : s.id ∉ D.used S.outline_groups := by
    rw [h.used_iff hs]
    rintro ⟨g, hg, htar⟩
    obtain hn | he := (h.claims_of hg hs).mpr htar
    · exact hname g hg hn
    · exact htag (tagged_of_external he)
  rw [← goal_old hs, h.goal_other hs htag hu] at hsame
  exact ⟨t, ht, hid, hsame.name, hsame.externalId, hsame.members⟩

/-- **At the goal there is nothing left to plan.** -/
theorem Reached.planned (h : D.Accepts S.outline_groups memberships) (hF : Reached D S F) :
    D.planned F.outline_groups (D.reads F) = [] := by
  have hp := hF.toPartial
  have hnil : ∀ {xs ys : List String}, (∀ u, u ∈ xs ↔ u ∈ ys) → sorted_diff xs ys = [] :=
    fun hiff => sorted_diff_eq_nil.mpr fun u hu => (hiff u).mp hu
  unfold Directory.planned
  rw [List.append_eq_nil_iff, List.flatMap_eq_nil_iff, List.flatMap_eq_nil_iff]
  constructor
  · intro g hg
    rw [mem_ordered] at hg
    obtain ⟨t, ht, hpl, hn, he, hm⟩ := hF.ldap h hg
    have hrel := relevant_of_claims hg ((h.claims_iff hp hg ht).mpr hpl)
    have hcur : current (D.reads F) t.id = t.members := by
      rw [current, lookup_relevant ht hrel]
      rfl
    rw [group_operations, (hp.target_iff h hg).mpr ⟨t, ht, rfl, hpl⟩]
    show update_operations t.toOutlineGroup (D.ext g) g.name ++
      member_operations t.id (D.desired g) (current (D.reads F) t.id) = []
    rw [hcur, update_operations, if_neg (by simp [hn, he]), member_operations,
      hnil fun u => (hm u).symm, hnil hm]
    rfl
  · intro o ho
    obtain ⟨t, ht, rfl⟩ := Outline.mem_outline_groups.mp ho
    unfold orphan_operations
    split_ifs with hc
    · have hcur : current (D.reads F) t.id = t.members := by
        rw [current, lookup_relevant ht (.inr hc.1)]
        rfl
      have hempty := hF.gone h ht hc.1 fun g hg hpl => hc.2 ((hp.used_iff h ht).mpr ⟨g, hg, hpl⟩)
      show (sorted_diff (current (D.reads F) t.id) []).map _ = []
      rw [hcur, hempty]
      rfl
    · rfl

/-! ### The members a group is to have -/

theorem mem_desired (h : D.Accepts S.outline_groups memberships) {g : LdapGroup} {u : String} :
    u ∈ D.desired g ↔ ∃ user ∈ D.outline_users, user.id = u ∧ user.joins = true ∧
      ∃ ak ∈ D.ak_users, ak.counts = true ∧ g.pk ∈ ak.groups ∧
        D.address ak.email = D.address user.email := by
  have hlook : ∀ {user ak}, user ∈ D.outline_users →
      ((index (fun u => D.address u.email) D.addressed).lookup (D.address user.email) = some ak ↔
        ak ∈ D.ak_users ∧ D.address ak.email = D.address user.email) := by
    intro user ak huser
    rw [lookup_index, h.ak_emails.find?_iff, addressed, List.mem_filter]
    constructor
    · rintro ⟨⟨hak, -⟩, he⟩
      exact ⟨hak, he⟩
    · rintro ⟨hak, he⟩
      have hne := h.ol_emails.ne_empty user huser
      exact ⟨⟨hak, by simpa [he] using hne⟩, he⟩
  unfold desired desired_members
  rw [List.mem_filterMap]
  constructor
  · rintro ⟨entry, hentry, hu⟩
    obtain ⟨user, huser, rfl⟩ := List.mem_map.mp hentry
    cases hl : (index (fun u => D.address u.email) D.addressed).lookup (D.address user.email) with
    | none => simp [hl] at hu
    | some ak =>
      simp only [hl, Option.ite_none_right_eq_some, Option.some.injEq] at hu
      obtain ⟨hak, he⟩ := (hlook huser).mp hl
      exact ⟨user, huser, hu.2, hu.1.2.1, ak, hak, hu.1.1, hu.1.2.2, he⟩
  · rintro ⟨user, huser, rfl, hjoins, ak, hak, hcounts, hpk, he⟩
    refine ⟨(D.address user.email, user), List.mem_map.mpr ⟨user, huser, rfl⟩, ?_⟩
    simp only [(hlook huser).mpr ⟨hak, he⟩]
    rw [if_pos ⟨hcounts, hjoins, hpk⟩]

end Directory

/-! ### The results -/

section Results

variable (strip casefold : String → String) (source_id : String) (ldap_groups : List LdapGroup)
  (ak_users : List AkUser)

/-- The Outline account is to be a member of the group of `g`: it is neither suspended nor
a guest, and its address is that of an active internal Authentik user in `g`. -/
def Belongs (g : LdapGroup) (user : OutlineUser) : Prop :=
  (user.isSuspended = false ∧ user.role ≠ some "guest") ∧
    ∃ ak ∈ ak_users, (ak.is_active = true ∧ ak.type = "internal") ∧ g.pk ∈ ak.groups ∧
      email strip casefold ak.email = email strip casefold user.email

/-- The groups of `F` are the target of a sync that began with `S`. -/
structure Target (S F : Outline) : Prop where
  ldap : ∀ g ∈ ldap_groups, ∃ t ∈ F.groups,
    (t.name = g.name ∧ t.externalId = some (external_id source_id g.pk)) ∧
    (∀ t' ∈ F.groups, t'.name = g.name ∨ t'.externalId = some (external_id source_id g.pk) →
      t' = t) ∧
    ∀ u, u ∈ t.members ↔ ∃ user ∈ S.users, user.id = u ∧ Belongs strip casefold ak_users g user
  gone : ∀ t ∈ F.groups, (prefix_of source_id).toList <+: t.external.toList →
    (∀ g ∈ ldap_groups, t.external ≠ external_id source_id g.pk) → t.members = []
  other : ∀ s ∈ S.groups, ¬ (prefix_of source_id).toList <+: s.external.toList →
    (∀ g ∈ ldap_groups, s.name ≠ g.name) →
    ∃ t ∈ F.groups, t.id = s.id ∧ t.name = s.name ∧ t.externalId = s.externalId ∧
      ∀ u, u ∈ t.members ↔ u ∈ s.members
  kept : ∀ s ∈ S.groups, ∃ t ∈ F.groups, t.id = s.id
  made : ∀ t ∈ F.groups, (∃ s ∈ S.groups, s.id = t.id) ∨ ∃ g ∈ ldap_groups, t.name = g.name
  users : F.users = S.users

variable {strip casefold source_id ldap_groups ak_users}
  {S : Outline} {memberships : List (String × List String)} {operations : List Operation}

/-- The directory of a sync of the server `S`. -/
def directory (strip casefold : String → String) (source_id : String)
    (ldap_groups : List LdapGroup) (ak_users : List AkUser) (S : Outline) : Directory :=
  ⟨strip, casefold, source_id, ldap_groups, ak_users, S.users⟩

theorem Directory.Reached.target {F : Outline}
    (h : (directory strip casefold source_id ldap_groups ak_users S).Accepts S.outline_groups
      memberships)
    (hF : (directory strip casefold source_id ldap_groups ak_users S).Reached S F) :
    Target strip casefold source_id ldap_groups ak_users S F where
  ldap g hg := by
    obtain ⟨t, ht, hpl, hn, he, hm⟩ := hF.ldap h hg
    refine ⟨t, ht, ⟨hn, he⟩, fun t' ht' hc => ?_, fun u => ?_⟩
    · have hc' : (directory strip casefold source_id ldap_groups ak_users S).Claims g
          t'.toOutlineGroup := hc.imp_right fun he' => by
        rw [OutlineGroup.external, he']
        rfl
      exact hF.toPartial.place_inj ht' ht ((h.claims_iff hF.toPartial hg ht').mp hc') hpl
    · rw [hm u, Directory.mem_desired h]
      refine exists_congr fun user => and_congr_right fun _ => and_congr_right fun _ => ?_
      simp [Belongs, OutlineUser.joins, AkUser.counts, Directory.address, directory]
  gone t ht htag hnone := by
    refine hF.gone h ht htag fun g hg hpl => ?_
    obtain ⟨t', ht', hpl', -, he, -⟩ := hF.ldap h hg
    obtain rfl := hF.toPartial.place_inj ht ht' hpl hpl'
    refine hnone g hg ?_
    rw [OutlineGroup.external, he]
    rfl
  other _ hs htag hname := hF.other h hs htag hname
  kept s hs := by
    obtain ⟨t, ht, hid, -⟩ := hF.old s hs
    exact ⟨t, ht, hid⟩
  made t ht := by
    by_cases hold : ∃ s ∈ S.groups, s.id = t.id
    · exact .inl hold
    · obtain ⟨g, hg, -, hsame⟩ := hF.new t ht fun s hs hid => hold ⟨s, hs, hid⟩
      exact .inr ⟨g, hg, hsame.name⟩
  users := hF.users

/-- The planner on the server `S`, for its directory. -/
theorem accepts_of_plan (hplan : plan_sync strip casefold source_id ldap_groups ak_users
    S.outline_groups S.users memberships = .ok operations) :
    (directory strip casefold source_id ldap_groups ak_users S).Accepts S.outline_groups
      memberships ∧
    operations = (directory strip casefold source_id ldap_groups ak_users S).planned
      S.outline_groups memberships :=
  Directory.plan_iff.mp hplan

/-- **The sync reaches its target.**  Whatever snapshot `plan_sync` accepts: the server
answers every operation of the plan, so each names a group that is there by then; its
groups are the target afterwards, and the next plan is empty. -/
theorem plan_sync_target (ids : IdSource) (hreads : Reads memberships S)
    (hplan : plan_sync strip casefold source_id ldap_groups ak_users S.outline_groups S.users
      memberships = .ok operations) :
    ∃ F, apply_plan ids S operations = .ok F ∧
      Target strip casefold source_id ldap_groups ak_users S F ∧
      reconcile_plan strip casefold source_id ldap_groups ak_users F = .ok [] := by
  obtain ⟨h, rfl⟩ := accepts_of_plan hplan
  obtain ⟨F, hrun, hF⟩ := Directory.apply_reached h hreads rfl ids
  refine ⟨F, hrun, hF.target h, ?_⟩
  have hplan' := Directory.plan_iff.mpr ⟨hF.toPartial.accepts h, (hF.planned h).symm⟩
  unfold Directory.plan directory at hplan'
  rw [reconcile_plan, hF.users]
  exact hplan'

end Results

/-- Ids longer than all the ids in use together. -/
def longer : IdSource where
  next ids := String.ofList ('g' :: ids.flatMap String.toList)
  fresh ids hmem := by
    have hle : ∀ {id : String}, id ∈ ids →
        id.toList.length ≤ (ids.flatMap String.toList).length := by
      intro id hid
      obtain ⟨l, l', rfl⟩ := List.append_of_mem hid
      simp only [List.flatMap_append, List.flatMap_cons, List.length_append]
      omega
    have hself := hle hmem
    simp at hself
  plain ids h := by
    obtain ⟨rest, hr⟩ := h
    have hhead := congrArg List.head? hr
    simp at hhead

/-- An LDAP group that is renamed, one that is new, and one that is gone. -/
def renamed : Outline where
  groups := [
    { id := "o1", name := "Old", externalId := some "krg-ldap:s:g1", members := ["u9"] },
    { id := "o2", name := "Manual", members := ["u2"] },
    { id := "o3", name := "Gone", externalId := some "krg-ldap:s:g9", members := ["u1"] }]
  users := [{ id := "u1", email := some "A@x" }, { id := "u2", email := some "b@x" }]
  ids_nodup := by decide
  ids_plain := by decide +kernel

def renamed_ldap : List LdapGroup := [⟨"g2", "Fish"⟩, ⟨"g1", "New"⟩]

def renamed_ak : List AkUser := [{ email := some "a@x", groups := ["g1", "g2"] }]

def renamed_plan : List Operation :=
  [.update "o1" "New" "krg-ldap:s:g1", .add_user "o1" "u1", .remove_user "o1" "u9",
    .create "Fish" "krg-ldap:s:g2", .add_user "krg-ldap:s:g2" "u1", .remove_user "o3" "u1"]

theorem plan_sync_target_renamed : ∃ F, apply_plan longer renamed renamed_plan = .ok F ∧
    Target id String.toLower "s" renamed_ldap renamed_ak renamed F ∧
    reconcile_plan id String.toLower "s" renamed_ldap renamed_ak F = .ok [] :=
  plan_sync_target longer
    (Directory.reads_reads (D := directory id String.toLower "s" renamed_ldap renamed_ak renamed))
    (by decide +kernel)

section Results

variable {strip casefold : String → String} {source_id : String} {ldap_groups : List LdapGroup}
  {ak_users : List AkUser} {S : Outline} {memberships : List (String × List String)}
  {operations : List Operation}

/-- Two servers with the same groups: those of `S` by their ids, and no other group in
one that has not its like in the other. -/
structure SameGroups (S F F' : Outline) : Prop where
  old : ∀ s ∈ S.groups, ∃ t ∈ F.groups, ∃ t' ∈ F'.groups,
    t.id = s.id ∧ t'.id = s.id ∧ Same t t'
  left : ∀ t ∈ F.groups, ∃ t' ∈ F'.groups, Same t t'
  right : ∀ t' ∈ F'.groups, ∃ t ∈ F.groups, Same t t'

theorem Directory.Reached.left {D : Directory} {F F' : Outline} (hF : D.Reached S F)
    (hF' : D.Reached S F') : ∀ t ∈ F.groups, ∃ t' ∈ F'.groups, Same t t' := by
  intro t ht
  by_cases hold : ∃ s ∈ S.groups, s.id = t.id
  · obtain ⟨s, hs, hid⟩ := hold
    obtain ⟨t₁, ht₁, hid₁, hsame₁⟩ := hF.old s hs
    obtain rfl := Outline.group_inj ht₁ ht (hid₁.trans hid)
    obtain ⟨t', ht', -, hsame'⟩ := hF'.old s hs
    exact ⟨t', ht', hsame₁.symm.trans hsame'⟩
  · obtain ⟨g, hg, htar, hsame⟩ := hF.new t ht fun s hs hid => hold ⟨s, hs, hid⟩
    obtain ⟨t', ht', -, hsame'⟩ := hF'.made g hg htar
    exact ⟨t', ht', hsame.symm.trans hsame'⟩

theorem Directory.Reached.same {D : Directory} {F F' : Outline} (hF : D.Reached S F)
    (hF' : D.Reached S F') : SameGroups S F F' where
  old s hs := by
    obtain ⟨t, ht, hid, hsame⟩ := hF.old s hs
    obtain ⟨t', ht', hid', hsame'⟩ := hF'.old s hs
    exact ⟨t, ht, t', ht', hid, hid', hsame.symm.trans hsame'⟩
  left := hF.left hF'
  right t' ht' := by
    obtain ⟨t, ht, hsame⟩ := hF'.left hF t' ht'
    exact ⟨t, ht, hsame.symm⟩

/-- **An interrupted sync is resumed.**  Whatever part of the plan has been applied, the
planner accepts what it left, and its new plan leads to the groups that the whole first
plan leads to. -/
theorem plan_sync_resumes (ids ids' : IdSource) (hreads : Reads memberships S)
    (hplan : plan_sync strip casefold source_id ldap_groups ak_users S.outline_groups S.users
      memberships = .ok operations) (n : ℕ) :
    ∃ F T, apply_plan ids S operations = .ok F ∧ apply_plan ids S (operations.take n) = .ok T ∧
      ∃ rest F', reconcile_plan strip casefold source_id ldap_groups ak_users T = .ok rest ∧
        apply_plan ids' T rest = .ok F' ∧ SameGroups S F F' := by
  obtain ⟨h, rfl⟩ := accepts_of_plan hplan
  obtain ⟨F, hrun, hF⟩ := Directory.apply_reached h hreads rfl ids
  obtain ⟨T, hpart, hT⟩ := Directory.apply_midway h rfl ids n
  have hacc := hT.accepts h
  obtain ⟨F', hrun', hF'⟩ := Directory.apply_reached hacc Directory.reads_reads hT.users.symm ids'
  refine ⟨F, T, hrun, hpart, _, F', ?_, hrun', hF.same (hT.reached h hF')⟩
  have hplan' := Directory.plan_iff.mpr ⟨hacc, rfl⟩
  unfold Directory.plan directory at hplan'
  rw [reconcile_plan, hT.users]
  exact hplan'

end Results

/-- Interrupted when the renamed group has its name, and its new member, and the new group
is still to be created. -/
theorem plan_sync_resumes_renamed :
    ∃ F T, apply_plan longer renamed renamed_plan = .ok F ∧
      apply_plan longer renamed (renamed_plan.take 2) = .ok T ∧
      ∃ rest F', reconcile_plan id String.toLower "s" renamed_ldap renamed_ak T = .ok rest ∧
        apply_plan longer T rest = .ok F' ∧ SameGroups renamed F F' :=
  plan_sync_resumes longer longer
    (Directory.reads_reads (D := directory id String.toLower "s" renamed_ldap renamed_ak renamed))
    (by decide +kernel) 2

end GroupSync
