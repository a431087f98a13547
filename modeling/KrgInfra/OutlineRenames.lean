/-
Outline group sync: the snapshot after the next.

Between two syncs LDAP groups are renamed.  Their Outline groups are found again by external id,
but a new name is compared with the names that Outline has at that time, and these are the old
ones: a name that another group of the sync is about to give up still counts as taken.  So a
second snapshot is refused exactly if one of its groups takes the name that another managed
Outline group bears after the first sync, or lacks an identity; else its plan is answered, and
every group that was there has the new name of its LDAP group.

* `Settled` — what a sync leaves behind, as far as the next one asks;
* `NamesFree`, `Identified` — the condition on the second snapshot;
* `Settled.accepts_iff` — the planner accepts a settled server under that condition;
* `renames_converge_iff`, and two groups that exchange their names.
-/
import KrgInfra.OutlineResume

namespace GroupSync

/-- Every LDAP group has an id and a name, and no two Authentik users an address. -/
structure Identified (strip casefold : String → String) (ldap_groups : List LdapGroup)
    (ak_users : List AkUser) : Prop where
  pks : ∀ g ∈ ldap_groups, g.pk ≠ ""
  names : ∀ g ∈ ldap_groups, g.name ≠ ""
  addresses : ((ak_users.filter fun u => email strip casefold u.email ≠ "").map
    fun u => email strip casefold u.email).Nodup

/-- An Outline group that bears the name of an LDAP group carries its external id. -/
def NamesFree (source_id : String) (ldap_groups : List LdapGroup) (F : Outline) : Prop :=
  ∀ g ∈ ldap_groups, ∀ t ∈ F.groups, t.name = g.name →
    t.externalId = some (external_id source_id g.pk)

namespace Directory

variable {D : Directory} {S F : Outline} {memberships : List (String × List String)}

theorem external_iff {g : LdapGroup} {o : OutlineGroup} :
    o.external = D.ext g ↔ o.externalId = some (D.ext g) := by
  unfold OutlineGroup.external
  cases o.externalId with
  | none =>
    constructor
    · exact fun h => absurd h.symm (ext_ne_empty g)
    · nofun
  | some e => exact ⟨congrArg some, Option.some.inj⟩

/-- What a sync leaves: the names and external ids of Outline differ, and no group of the sync
belongs to an external provider. -/
structure Settled (D : Directory) (F : Outline) : Prop where
  names : Indexed OutlineGroup.name F.outline_groups
  externals : Indexed OutlineGroup.external (F.outline_groups.filter (·.external ≠ ""))
  internal : ∀ t ∈ F.groups, D.Tagged t.toOutlineGroup → t.externalGroup = false
  users : Indexed (fun u => D.address u.email) D.outline_users

/-- A group of the sync belongs to no external provider. -/
theorem Accepts.internal (h : D.Accepts S.outline_groups memberships) {s : ServerGroup}
    (hs : s ∈ S.groups) (htag : D.Tagged s.toOutlineGroup) : s.externalGroup = false := by
  by_cases hu : s.id ∈ D.used S.outline_groups
  · obtain ⟨g, hg, ht⟩ := (h.used_iff hs).mp hu
    exact ((h.fits g hg).own _ ht).1
  · have ho : s.toOutlineGroup ∈ S.outline_groups := Outline.mem_outline_groups.mpr ⟨s, hs, rfl⟩
    exact (h.orphans _ ho htag hu).1

/-- **A sync leaves a settled server.** -/
theorem Reached.settled (h : D.Accepts S.outline_groups memberships) (hF : Reached D S F) :
    D.Settled F where
  names := hF.toPartial.names h
  externals := hF.toPartial.externals h
  internal _ ht htag := (hF.toPartial.accepts h).internal ht htag
  users := h.ol_emails

/-- The condition is needed: the Outline group of an LDAP group carries no other external id. -/
theorem Accepts.namesFree (h : D.Accepts F.outline_groups memberships)
    (hmanaged : ∀ g ∈ D.ldap_groups, ∀ t ∈ F.groups, t.name = g.name →
      D.Tagged t.toOutlineGroup) : NamesFree D.source_id D.ldap_groups F := by
  intro g hg t ht hname
  have htarget := (h.claims_of hg ht).mp (.inl hname)
  have hown := ((h.fits g hg).own _ htarget).2
  -- its external id begins with the prefix, so it is not blank
  have hblank : t.external ≠ "" := by
    intro he
    obtain ⟨rest, hrest⟩ := hmanaged g hg t ht hname
    have hlen := congrArg List.length hrest
    rw [show t.toOutlineGroup.external = "" from he] at hlen
    simp [prefix_of] at hlen
  simp only [List.mem_cons, List.not_mem_nil, or_false] at hown
  obtain he | he | he := hown
  · exact absurd (by simp [OutlineGroup.external, he]) hblank
  · exact absurd (by simp [OutlineGroup.external, he]) hblank
  · exact he

section Settled

variable (hs : D.Settled F) (hfree : NamesFree D.source_id D.ldap_groups F)
include hs hfree

theorem Settled.agree {g : LdapGroup} (hg : g ∈ D.ldap_groups) (o o' : OutlineGroup)
    (ho : F.outline_groups.find? (fun o => o.external = D.ext g) = some o)
    (ho' : F.outline_groups.find? (fun o => o.name = g.name) = some o') : o.id = o'.id := by
  obtain ⟨hom, he⟩ := (owner_iff hs.externals).mp ho
  obtain ⟨hom', hn⟩ := hs.names.find?_iff.mp ho'
  have he' : o'.external = D.ext g := by
    obtain ⟨t, ht, rfl⟩ := Outline.mem_outline_groups.mp hom'
    exact external_iff.mpr (hfree g hg t ht hn)
  have hmem : ∀ {x : OutlineGroup}, x ∈ F.outline_groups → x.external = D.ext g →
      x ∈ F.outline_groups.filter (·.external ≠ "") := by
    intro x hx hxe
    refine List.mem_filter.mpr ⟨hx, ?_⟩
    rw [hxe]
    exact decide_eq_true (ext_ne_empty g)
  rw [hs.externals.inj (hmem hom he) (hmem hom' he') (he.trans he'.symm)]

/-- The Outline group of an LDAP group is the one with its external id. -/
theorem Settled.target_iff {g : LdapGroup} (hg : g ∈ D.ldap_groups) {o : OutlineGroup} :
    D.target F.outline_groups g = some o ↔
      ∃ t ∈ F.groups, t.toOutlineGroup = o ∧ t.externalId = some (D.ext g) := by
  rw [Directory.target_iff hs.names hs.externals F.outline_ids_nodup (hs.agree hfree hg),
    Outline.mem_outline_groups]
  constructor
  · rintro ⟨⟨t, ht, rfl⟩, hn | he⟩
    · exact ⟨t, ht, rfl, hfree g hg t ht hn⟩
    · exact ⟨t, ht, rfl, external_iff.mp he⟩
  · rintro ⟨t, ht, rfl, he⟩
    exact ⟨⟨t, ht, rfl⟩, .inr (external_iff.mpr he)⟩

theorem Settled.fits {g : LdapGroup} (hg : g ∈ D.ldap_groups) :
    D.Fits F.outline_groups (D.reads F) g where
  agree := hs.agree hfree hg
  own o ho := by
    obtain ⟨t, ht, rfl, he⟩ := (hs.target_iff hfree hg).mp ho
    refine ⟨hs.internal t ht (tagged_of_external (external_iff.mpr he)), ?_⟩
    simp [he]
  read o ho := by
    obtain ⟨t, ht, rfl, he⟩ := (hs.target_iff hfree hg).mp ho
    have hrel : D.Relevant t := .inr (tagged_of_external (external_iff.mpr he))
    rw [lookup_relevant ht hrel]
    rfl

/-- Two LDAP groups have different Outline groups. -/
theorem Settled.apart (hpks : (D.ldap_groups.map LdapGroup.pk).Nodup) :
    (D.used F.outline_groups).Nodup := by
  unfold used
  refine List.pairwise_filterMap.mpr ((List.pairwise_map.mp hpks).imp_of_mem ?_)
  intro g g' hg hg' hne id hid id' hid' hids
  obtain ⟨o, ho, rfl⟩ := Option.map_eq_some_iff.mp hid
  obtain ⟨o', ho', rfl⟩ := Option.map_eq_some_iff.mp hid'
  obtain ⟨t, ht, rfl, he⟩ := (hs.target_iff hfree hg).mp ho
  obtain ⟨t', ht', rfl, he'⟩ := (hs.target_iff hfree hg').mp ho'
  obtain rfl := Outline.group_inj ht ht' hids
  exact hne (ext_inj.mp (Option.some.inj (he.symm.trans he')))

/-- The condition suffices. -/
theorem Settled.accepts (hnames : (D.ldap_groups.map LdapGroup.name).Nodup)
    (hpks : (D.ldap_groups.map LdapGroup.pk).Nodup)
    (hident : Identified D.strip D.casefold D.ldap_groups D.ak_users) :
    D.Accepts F.outline_groups (D.reads F) where
  pks := ⟨hident.pks, hpks⟩
  names := ⟨hident.names, hnames⟩
  outline_names := hs.names
  externals := hs.externals
  ak_emails := by
    refine ⟨fun u hu => ?_, hident.addresses⟩
    simpa using (List.mem_filter.mp hu).2
  ol_emails := hs.users
  fits _ hg := hs.fits hfree hg
  apart := hs.apart hfree hpks
  orphans o ho htag _ := by
    obtain ⟨t, ht, rfl⟩ := Outline.mem_outline_groups.mp ho
    have hrel : D.Relevant t := .inr htag
    refine ⟨hs.internal t ht htag, ?_⟩
    rw [lookup_relevant ht hrel]
    rfl

end Settled

/-- **The planner on a settled server.**  It accepts exactly the snapshots whose groups have
identities, and take no name that another group of the sync still bears. -/
theorem Settled.accepts_iff (hs : D.Settled F)
    (hnames : (D.ldap_groups.map LdapGroup.name).Nodup)
    (hpks : (D.ldap_groups.map LdapGroup.pk).Nodup)
    (hmanaged : ∀ g ∈ D.ldap_groups, ∀ t ∈ F.groups, t.name = g.name →
      D.Tagged t.toOutlineGroup) :
    D.Accepts F.outline_groups (D.reads F) ↔
      Identified D.strip D.casefold D.ldap_groups D.ak_users ∧
        NamesFree D.source_id D.ldap_groups F := by
  constructor
  · intro h
    exact ⟨⟨h.pks.ne_empty, h.names.ne_empty, h.ak_emails.nodup⟩, h.namesFree hmanaged⟩
  · rintro ⟨hident, hfree⟩
    exact hs.accepts hfree hnames hpks hident

/-- A group that is there keeps its id when it gets the new name of its LDAP group. -/
theorem Reached.renamed (h : D.Accepts S.outline_groups memberships) (hF : Reached D S F)
    {g : LdapGroup} (hg : g ∈ D.ldap_groups) {s : ServerGroup} (hs : s ∈ S.groups)
    (he : s.externalId = some (D.ext g)) : ∃ t ∈ F.groups, t.id = s.id ∧ t.name = g.name := by
  have htarget := (h.claims_of hg hs).mp (.inr (external_iff.mpr he))
  obtain ⟨t, ht, hid, hsame⟩ := hF.old s hs
  rw [← goal_old hs, h.goal_target hg hs htarget] at hsame
  exact ⟨t, ht, hid, hsame.name⟩

/-- The names that are taken after a sync are those of its LDAP groups, and those of the groups
that have none. -/
theorem Reached.namesFree_iff (h : D.Accepts S.outline_groups memberships) (hF : Reached D S F)
    {ldap_groups : List LdapGroup} : NamesFree D.source_id ldap_groups F ↔
      (∀ g' ∈ ldap_groups, ∀ g ∈ D.ldap_groups, g.name = g'.name → g.pk = g'.pk) ∧
      ∀ g' ∈ ldap_groups, ∀ s ∈ S.groups,
        (∀ g ∈ D.ldap_groups, D.target S.outline_groups g ≠ some s.toOutlineGroup) →
        s.name = g'.name → s.externalId = some (external_id D.source_id g'.pk) := by
  have hext : ∀ {g g' : LdapGroup}, some (D.ext g) = some (external_id D.source_id g'.pk) ↔
      g.pk = g'.pk := fun {g g'} =>
    (Option.some.injEq _ _).to_iff.trans (@ext_inj D g g')
  constructor
  · intro hfree
    constructor
    · intro g' hg' g hg hname
      obtain ⟨t, ht, -, hn, he, -⟩ := hF.ldap h hg
      exact hext.mp (he.symm.trans (hfree g' hg' t ht (hn.trans hname)))
    · intro g' hg' s hs hnone hname
      obtain ⟨t, ht, hid, hsame⟩ := hF.old s hs
      -- a group without an LDAP group keeps its label
      obtain ⟨hn, he⟩ | ⟨g, hg, htarget, -⟩ := h.old_label hF.toPartial hs ht hid.symm
      · exact he.symm.trans (hfree g' hg' t ht (hn.trans hname))
      · exact absurd htarget (hnone g hg)
  · rintro ⟨hldap, hgone⟩ g' hg' t ht hname
    obtain ⟨g, hg, hplace⟩ | ⟨s, hs, hid, hnone, hn, he⟩ := h.place_or hF.toPartial ht
    · obtain ⟨t', ht', hplace', hn, he, -⟩ := hF.ldap h hg
      obtain rfl := hF.toPartial.place_inj ht ht' hplace hplace'
      exact he.trans (hext.mpr (hldap g' hg' g hg (hn.symm.trans hname)))
    · exact he.trans (hgone g' hg' s hs hnone (hn.symm.trans hname))

end Directory

/-! ### The second snapshot -/

section Results

variable (strip casefold : String → String) (source_id : String) (ids : IdSource)

/-- The planner answers, the server answers its plan, and has then the target of the sync; the
groups of the LDAP groups are the ones that they were, under their new names. -/
def Converges (ldap_groups : List LdapGroup) (ak_users : List AkUser) (F : Outline) : Prop :=
  ∃ operations F', reconcile_plan strip casefold source_id ldap_groups ak_users F =
      .ok operations ∧
    apply_plan ids F operations = .ok F' ∧
    Target strip casefold source_id ldap_groups ak_users F F' ∧
    ∀ g ∈ ldap_groups, ∀ t ∈ F.groups, t.externalId = some (external_id source_id g.pk) →
      ∃ t' ∈ F'.groups, t'.id = t.id ∧ t'.name = g.name

variable {strip casefold source_id} {ldap_groups : List LdapGroup} {ak_users : List AkUser}
  {S F : Outline} {operations : List Operation}

/-- A sync converges exactly if its snapshot is accepted. -/
theorem converges_iff : Converges strip casefold source_id ids ldap_groups ak_users F ↔
    (directory strip casefold source_id ldap_groups ak_users F).Accepts F.outline_groups
      ((directory strip casefold source_id ldap_groups ak_users F).reads F) := by
  constructor
  · rintro ⟨operations, -, hplan, -⟩
    exact (accepts_of_plan hplan).1
  · intro h
    obtain ⟨F', hrun, hF'⟩ := Directory.apply_reached h Directory.reads_reads rfl ids
    refine ⟨_, F', Directory.plan_iff.mpr ⟨h, rfl⟩, hrun, hF'.target h, ?_⟩
    exact fun g hg t ht he => hF'.renamed h hg ht he

/-- What the first sync leaves, for the directory of the second. -/
theorem settled_of_sync (hplan : reconcile_plan strip casefold source_id ldap_groups ak_users S =
    .ok operations) (hrun : apply_plan ids S operations = .ok F) (ldap_groups' : List LdapGroup)
    (ak_users' : List AkUser) :
    (directory strip casefold source_id ldap_groups' ak_users' F).Settled F := by
  obtain ⟨h, rfl⟩ := accepts_of_plan hplan
  have hreads : Reads (read_memberships source_id ldap_groups S) S :=
    Directory.reads_reads (D := directory strip casefold source_id ldap_groups ak_users S)
  obtain ⟨F₁, hrun₁, hF⟩ := Directory.apply_reached h hreads rfl ids
  obtain rfl : F₁ = F := Except.ok.inj (hrun₁.symm.trans hrun)
  have hs := hF.settled h
  refine ⟨hs.names, hs.externals, hs.internal, ?_⟩
  show Indexed _ F₁.users
  rw [hF.users]
  exact hs.users

/-- **Renames converge exactly if no group takes a name that another still bears.**  After a
sync, for a second snapshot whose names and ids are distinct and whose names no unmanaged
Outline group bears. -/
theorem renames_converge_iff {ldap_groups' : List LdapGroup} {ak_users' : List AkUser}
    (ids' : IdSource)
    (hplan : reconcile_plan strip casefold source_id ldap_groups ak_users S = .ok operations)
    (hrun : apply_plan ids S operations = .ok F)
    (hnames : (ldap_groups'.map LdapGroup.name).Nodup)
    (hpks : (ldap_groups'.map LdapGroup.pk).Nodup)
    (hunmanaged : ∀ t ∈ F.groups, ¬ (prefix_of source_id).toList <+: t.external.toList →
      ∀ g ∈ ldap_groups', t.name ≠ g.name) :
    Converges strip casefold source_id ids' ldap_groups' ak_users' F ↔
      Identified strip casefold ldap_groups' ak_users' ∧ NamesFree source_id ldap_groups' F := by
  rw [converges_iff]
  refine (settled_of_sync ids hplan hrun ldap_groups' ak_users').accepts_iff hnames hpks ?_
  intro g hg t ht hname
  by_contra htag
  exact hunmanaged t ht htag g hg hname

end Results

/-- Two groups of the sync, as the first snapshot has them. -/
def two_groups : Outline where
  groups := [
    { id := "o1", name := "A", externalId := some "krg-ldap:s:g1", members := ["u1"] },
    { id := "o2", name := "B", externalId := some "krg-ldap:s:g2" }]
  users := [{ id := "u1", email := some "a@x" }]
  ids_nodup := by decide
  ids_plain := by decide +kernel

def two_ldap : List LdapGroup := [⟨"g1", "A"⟩, ⟨"g2", "B"⟩]

def two_ak : List AkUser := [{ email := some "a@x", groups := ["g1"] }]

/-- A group takes a name that no group has, and another one is new. -/
theorem renames_converge_two :
    Converges id String.toLower "s" longer [⟨"g1", "C"⟩, ⟨"g2", "B"⟩, ⟨"g3", "D"⟩] two_ak
      two_groups := by
  have hplan : reconcile_plan id String.toLower "s" two_ldap two_ak two_groups = .ok [] := by
    decide +kernel
  refine (renames_converge_iff longer longer hplan rfl ?_ ?_ ?_).mpr ⟨⟨?_, ?_, ?_⟩, ?_⟩
  · decide
  · decide
  · decide +kernel
  · decide
  · decide
  · decide +kernel
  · unfold NamesFree
    decide +kernel

/-- The groups exchange their names. -/
def exchanged_ldap : List LdapGroup := [⟨"g1", "B"⟩, ⟨"g2", "A"⟩]

/-- The second snapshot is refused where the groups exchange their names, and where the name of
a group that is renamed is that of a new one. -/
theorem reused_name_refused :
    reconcile_plan id String.toLower "s" two_ldap two_ak two_groups = .ok [] ∧
    apply_plan longer two_groups [] = .ok two_groups ∧
    (exchanged_ldap.map LdapGroup.name).Nodup ∧ (exchanged_ldap.map LdapGroup.pk).Nodup ∧
    (∀ t ∈ two_groups.groups, (prefix_of "s").toList <+: t.external.toList) ∧
    ¬ Converges id String.toLower "s" longer exchanged_ldap two_ak two_groups ∧
    reconcile_plan id String.toLower "s" exchanged_ldap two_ak two_groups =
      .error (.syncError "LDAP rename collides with another Outline group") ∧
    reconcile_plan id String.toLower "s" [⟨"g1", "C"⟩, ⟨"g2", "B"⟩, ⟨"g3", "A"⟩] two_ak
      two_groups = .error (.syncError "Outline group belongs to another external source") := by
  have hrefused : reconcile_plan id String.toLower "s" exchanged_ldap two_ak two_groups =
      .error (.syncError "LDAP rename collides with another Outline group") := by
    decide +kernel
  refine ⟨?_, rfl, ?_, ?_, ?_, ?_, hrefused, ?_⟩
  · decide +kernel
  · decide
  · decide
  · decide +kernel
  · rintro ⟨operations, -, hplan, -⟩
    exact nomatch hrefused.symm.trans hplan
  · decide +kernel

end GroupSync
