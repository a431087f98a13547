/-
The files that share permissions can be compared in.

A grant without a name, or without a tier that there is, is caught; a group that is no text, and a
user that cannot be an element of a set, are not.  The names of a tier are sorted where they are not
those of DSM, so no two of them may fail to be compared.

* `GrantOf`, `GrantFit`, `handled_grant` — a grant;
* `typed_diffTier` — the names of a tier;
* `EntryFit`, `handled_diffEntry`, `diffEntry_returns_iff` — an entry;
* `LiveAclFit`, `AclsFit`, `handled_diff_acls` — the captures, and the files.
-/
import KrgInfra.DriftShapes

namespace DriftReport

open PyObject Raising
open PyObject.Value (member memberOr)
open ShareAcls (Tier)

variable {rt : Runtime}

/-! ### Grants -/

/-- The name of a grant, from its group or its user. -/
def principalOf (g : List (Value × Value)) : Option Value :=
  match member g "group" with
  | some (.str group) => some (.str ("@" ++ group))
  | some _ => none
  | none => member g "user"

/-- The tier that a grant names. -/
def tierOf (rt : Runtime) (access : Value) : Option Tier := ShareAcls.tierOf (rt.str access).toLower

/-- What a grant gives: a name on the list of a tier. -/
def GrantOf (rt : Runtime) (g : Value) (granted : Tier × Key × Value) : Prop :=
  ∃ members access, g = .dict members ∧ principalOf members = some granted.2.2 ∧
    member members "access" = some access ∧ tierOf rt access = some granted.1 ∧
    granted.2.2.hash = .ok granted.2.1

/-- A grant: a group is a text, and the name can be an element of a set, if there are a name and a
tier. -/
def GrantFit (rt : Runtime) (g : Value) : Prop :=
  ∃ members, g = .dict members ∧ (∀ group, member members "group" = some group → IsStr group) ∧
    ∀ name access t, principalOf members = some name → member members "access" = some access →
      tierOf rt access = some t → Hashable name

theorem principal_dict {members : List (Value × Value)} :
    principal rt (.dict members) =
      match member members "group" with
      | some group => concat "@" group
      | none => (Value.dict members).item rt "user" := by
  rw [principal, contains, ok_bind]
  cases h : member members "group" with
  | none => rfl
  | some group =>
    rw [Option.isSome_some, if_pos rfl, (item_eq_ok_iff rt).mpr ⟨members, rfl, h⟩, ok_bind]

theorem tierNamed_eq_ok_iff {access : Value} {t : Tier} :
    tierNamed rt access = .ok t ↔ tierOf rt access = some t := by
  rw [tierNamed, tierOf]
  cases ShareAcls.tierOf (rt.str access).toLower <;> simp

theorem handled_tierNamed (access : Value) : Handled Caught (tierNamed rt access) := by
  rw [tierNamed]
  cases ShareAcls.tierOf (rt.str access).toLower with
  | none => exact handled_error.mpr (caught_keyError _)
  | some t => exact handled_ok t

/-- What is no mapping has no name. -/
theorem principal_of_not_dict {g : Value} (h : ∀ members, g ≠ .dict members) :
    principal rt g = .error .typeError := by
  have hitem : ∀ name, g.item rt name = .error .typeError := by
    intro name
    cases g with
    | dict members => exact absurd rfl (h members)
    | _ => rfl
  rw [principal]
  cases hcontains : contains "group" g with
  | ok b => cases b <;> simp [hitem]
  | error e =>
    have he : e = .typeError := by
      cases g with
      | dict members => exact absurd rfl (h members)
      | _ => simp_all [contains]
    rw [he]
    rfl

/-- The rest of a grant, after its name. -/
theorem handled_granted {members : List (Value × Value)} {name : Value} :
    Handled Caught (do
      let access ← (Value.dict members).item rt "access"
      let tier ← tierNamed rt access
      let element ← keyed name
      return (tier, element)) ↔ ∀ access t, member members "access" = some access →
        tierOf rt access = some t → Hashable name := by
  have hname : ∀ tier : Tier, Handled Caught (do
      let element ← keyed name
      return (tier, element)) ↔ Hashable name := fun tier =>
    typed_handled ((typed_keyed name).map _)
  rw [handled_item_bind]
  simp only [handled_bind (x := tierNamed rt _), handled_tierNamed, true_and, tierNamed_eq_ok_iff,
    hname]
  constructor
  · rintro ⟨_, hm, h⟩ access t haccess ht
    obtain rfl := Value.dict.inj hm
    exact h access haccess t ht
  · exact fun h => ⟨members, rfl, fun access haccess t ht => h access t haccess ht⟩

theorem handled_grant {g : Value} : Handled Caught (grant rt g) ↔ GrantFit rt g := by
  by_cases hg : ∃ members, g = .dict members
  · obtain ⟨members, rfl⟩ := hg
    have hfit : GrantFit rt (.dict members) ↔
        (∀ group, member members "group" = some group → IsStr group) ∧
          ∀ name access t, principalOf members = some name → member members "access" = some access →
            tierOf rt access = some t → Hashable name := by
      constructor
      · rintro ⟨_, hm, h⟩
        exact Value.dict.inj hm ▸ h
      · exact fun h => ⟨members, rfl, h⟩
    rw [hfit, grant, principal_dict, principalOf]
    cases hgroup : member members "group" with
    | none =>
      show Handled Caught ((Value.dict members).item rt "user" >>= _) ↔ _
      rw [handled_item_bind]
      simp only [handled_granted]
      constructor
      · rintro ⟨_, hm, h⟩
        obtain rfl := Value.dict.inj hm
        exact ⟨fun _ h => (nomatch h), fun name access t hname => h name hname access t⟩
      · exact fun h => ⟨members, rfl, fun name hname access t => h.2 name access t hname⟩
    | some group =>
      show Handled Caught (concat "@" group >>= _) ↔ _
      cases group with
      | str s =>
        rw [show concat "@" (.str s) = .ok (.str ("@" ++ s)) from rfl, ok_bind, handled_granted]
        constructor
        · refine fun h => ⟨fun _ hs => ⟨s, (Option.some.inj hs).symm⟩, ?_⟩
          exact fun name access t hname => Option.some.inj hname ▸ h access t
        · exact fun h access t => h.2 _ access t rfl
      | _ =>
        refine ⟨fun h => absurd (handled_error.mp h) (not_caught_of_type (.inl rfl)), fun h => ?_⟩
        obtain ⟨s, hs⟩ := h.1 _ rfl
        exact nomatch hs
  · rw [grant, principal_of_not_dict fun members h => hg ⟨members, h⟩, error_bind, handled_error]
    refine ⟨fun h => absurd h (not_caught_of_type (.inl rfl)), ?_⟩
    rintro ⟨members, h, -⟩
    exact absurd ⟨members, h⟩ hg

theorem principal_eq_ok_iff {g name : Value} : principal rt g = .ok name ↔
    ∃ members, g = .dict members ∧ principalOf members = some name := by
  by_cases hg : ∃ members, g = .dict members
  · obtain ⟨members, rfl⟩ := hg
    have hiff : principal rt (.dict members) = .ok name ↔ principalOf members = some name := by
      rw [principal_dict, principalOf]
      cases hgroup : member members "group" with
      | none =>
        show (Value.dict members).item rt "user" = .ok name ↔ member members "user" = some name
        rw [item_eq_ok_iff]
        exact ⟨fun ⟨_, hm, h⟩ => Value.dict.inj hm ▸ h, fun h => ⟨members, rfl, h⟩⟩
      | some group =>
        cases group with
        | str s => exact ⟨fun h => congrArg some (Except.ok.inj h), fun h => congrArg _ (Option.some.inj h)⟩
        | _ => exact ⟨fun h => (nomatch h), fun h => nomatch h⟩
    rw [hiff]
    exact ⟨fun h => ⟨members, rfl, h⟩, fun ⟨_, hm, h⟩ => Value.dict.inj hm ▸ h⟩
  · rw [principal_of_not_dict fun members h => hg ⟨members, h⟩]
    exact ⟨fun h => (nomatch h), fun ⟨members, h, _⟩ => absurd ⟨members, h⟩ hg⟩

theorem grant_eq_ok_iff {g : Value} {granted : Tier × Key × Value} :
    grant rt g = .ok granted ↔ GrantOf rt g granted := by
  simp only [grant, bind_eq_ok_iff, principal_eq_ok_iff, item_eq_ok, tierNamed_eq_ok_iff,
    keyed_eq_ok_iff]
  constructor
  · rintro ⟨_, ⟨members, rfl, hname⟩, access, ⟨_, hm, haccess⟩, t, ht, element, ⟨rfl, hkey⟩, h⟩
    obtain rfl := Value.dict.inj hm
    obtain rfl := Except.ok.inj h
    exact ⟨members, access, rfl, hname, haccess, ht, hkey⟩
  · rintro ⟨members, access, rfl, hname, haccess, ht, hkey⟩
    exact ⟨_, ⟨members, rfl, hname⟩, access, ⟨members, rfl, haccess⟩, _, ht, _, ⟨rfl, hkey⟩, rfl⟩

theorem comparable_texts (texts : List String) : Comparable (texts.map .str) := by
  refine List.pairwise_map.mpr (List.pairwise_of_forall fun _ _ => rfl)

/-- The names of a tier have their keys. -/
theorem hash_of_mem_tierSet {granted : List (Tier × Key × Value)} {t : Tier}
    (hgranted : ∀ g ∈ granted, g.2.2.hash = .ok g.2.1) {element : Key × Value}
    (h : element ∈ tierSet t granted) : element.2.hash = .ok element.1 := by
  have hmem := Firsts.mem_of_first? Prod.fst ((Firsts.mem_firsts_iff Prod.fst).mp h)
  obtain ⟨g, hg, rfl⟩ := List.mem_map.mp hmem
  exact hgranted g (List.mem_of_mem_filter hg)

/-- A tier: its names can be sorted.  Where they are those of DSM, they are texts. -/
theorem typed_diffTier {share : Value} {granted : List (Tier × Key × Value)}
    {live : ShareAcls.Tiers} {t : Tier} (hgranted : ∀ g ∈ granted, g.2.2.hash = .ok g.2.1) :
    Typed (diffTier rt share granted live t)
      (Comparable ((tierSet t granted).map Prod.snd)) := by
  have hlive : Comparable (((live t).dedup.map Value.str).map id) := by
    rw [List.map_id]
    exact comparable_texts _
  rw [diffTier]
  by_cases hsame : tierDiffers (tierSet t granted) (live t) = false
  · rw [if_pos hsame]
    refine .ok [] ?_
    rw [tierDiffers, Bool.not_eq_false', Bool.and_eq_true, List.all_eq_true] at hsame
    have htexts : ∀ v ∈ (tierSet t granted).map Prod.snd, IsStr v := by
      intro v hv
      obtain ⟨element, helement, rfl⟩ := List.mem_map.mp hv
      have hkey := of_decide_eq_true (hsame.1 element helement)
      obtain ⟨name, -, hname⟩ := List.mem_map.mp hkey
      have hhash := hash_of_mem_tierSet hgranted helement
      rw [← hname] at hhash
      exact ⟨name, hash_eq_str_iff.mp hhash⟩
    obtain ⟨texts, htexts⟩ := forall_isStr_iff.mp htexts
    rw [htexts]
    exact comparable_texts texts
  · rw [if_neg hsame]
    refine ((typed_sorted id _).bind fun _ _ => (typed_sorted id _).map _).congr ?_
    rw [List.map_id, and_iff_left hlive]

/-- An entry that has a share. -/
def GrantsFit (rt : Runtime) (members : List (Value × Value)) (share : Value) : Prop :=
  ∃ grants, (memberOr members "grants" (.list [])).elements = some grants ∧
    Along (fun g => ∃ granted, GrantOf rt g granted) (GrantFit rt) grants ∧
    ∀ granted, List.Forall₂ (GrantOf rt) grants granted →
      Hashable share ∧ ∀ t ∈ ShareAcls.tiers, Comparable ((tierSet t granted).map Prod.snd)

/-- An entry, with or without a share. -/
def EntryFit (rt : Runtime) (entry : Value) : Prop :=
  ∃ members, entry = .dict members ∧
    ∀ share, member members "share" = some share → GrantsFit rt members share

/-- An entry that lacks nothing. -/
def EntryComplete (rt : Runtime) (entry : Value) : Prop :=
  ∃ members share grants, entry = .dict members ∧ member members "share" = some share ∧
    (memberOr members "grants" (.list [])).elements = some grants ∧
    ∀ g ∈ grants, ∃ granted, GrantOf rt g granted

variable {live_by_share : List (Key × ShareAcls.Tiers)}

/-- What is done with the grants. -/
theorem typed_entryTiers {share : Value} {granted : List (Tier × Key × Value)}
    (hgranted : ∀ g ∈ granted, g.2.2.hash = .ok g.2.1) : Typed (do
      let key ← share.hash
      let live := (live_by_share.lookup key).getD fun _ => []
      let drifts ← ShareAcls.tiers.mapM (diffTier rt share granted live)
      return drifts.flatten) (Hashable share ∧
        ∀ t ∈ ShareAcls.tiers, Comparable ((tierSet t granted).map Prod.snd)) :=
  (typed_hash share).bind fun _ _ =>
    (Strict.mapM (fun _ => typed_diffTier hgranted) ShareAcls.tiers).map _

/-- The names that are granted have their keys. -/
theorem hash_of_granted {grants : List Value} {granted : List (Tier × Key × Value)}
    (h : List.Forall₂ (GrantOf rt) grants granted) : ∀ g ∈ granted, g.2.2.hash = .ok g.2.1 := by
  induction h with
  | nil => exact fun _ h => nomatch h
  | cons hg _ ih =>
    obtain ⟨_, _, -, -, -, -, hkey⟩ := hg
    exact List.forall_mem_cons.mpr ⟨hkey, ih⟩

theorem desired_tiers_eq_ok_iff {value : Value} {granted : List (Tier × Key × Value)} :
    desired_tiers rt value = .ok granted ↔
      ∃ grants, value.elements = some grants ∧ List.Forall₂ (GrantOf rt) grants granted := by
  have hrel : (fun g x => grant rt g = .ok x) = GrantOf rt :=
    funext fun g => funext fun x => propext grant_eq_ok_iff
  simp only [desired_tiers, bind_eq_ok_iff, iter_eq_ok_iff, mapM_eq_ok_iff, hrel]

theorem handled_diffEntry {entry : Value} :
    Handled Caught (diffEntry rt live_by_share entry) ↔ EntryFit rt entry := by
  rw [diffEntry, handled_item_bind]
  refine exists_congr fun members => and_congr_right fun hentry => ?_
  refine forall_congr' fun share => imp_congr_right fun _ => ?_
  subst hentry
  rw [Value.get, ok_bind, desired_tiers, bind_assoc, handled_iter_bind]
  refine exists_congr fun grants => and_congr_right fun _ => ?_
  rw [handled_each (fun _ => handled_grant) fun _ _ => grant_eq_ok_iff]
  refine and_congr_right fun _ => forall_congr' fun granted => imp_congr_right fun h => ?_
  exact typed_handled (typed_entryTiers (hash_of_granted h))

theorem diffEntry_returns_iff {entry : Value} (h : EntryFit rt entry) :
    (∃ found, diffEntry rt live_by_share entry = .ok found) ↔ EntryComplete rt entry := by
  constructor
  · rintro ⟨found, hfound⟩
    simp only [diffEntry, bind_eq_ok_iff, item_eq_ok, get_eq_ok_iff, desired_tiers_eq_ok_iff]
      at hfound
    obtain ⟨share, ⟨members, rfl, hshare⟩, _, ⟨_, hm, rfl⟩, granted, ⟨grants, hgrants, hall⟩, -⟩ :=
      hfound
    obtain rfl := Value.dict.inj hm
    exact ⟨members, share, grants, rfl, hshare, hgrants, exists_forall₂_iff.mp ⟨granted, hall⟩⟩
  · rintro ⟨members, share, grants, rfl, hshare, hgrants, hall⟩
    obtain ⟨_, hm, hfit⟩ := h
    obtain rfl := Value.dict.inj hm
    obtain ⟨grants', hgrants', -, hrest⟩ := hfit share hshare
    obtain rfl := Option.some.inj (hgrants.symm.trans hgrants')
    obtain ⟨granted, hgranted⟩ := exists_forall₂_iff.mpr hall
    have hdesired := desired_tiers_eq_ok_iff.mpr ⟨grants, hgrants, hgranted⟩
    rw [diffEntry, (item_eq_ok_iff rt).mpr ⟨members, rfl, hshare⟩, ok_bind, Value.get, ok_bind,
      hdesired, ok_bind]
    exact (typed_entryTiers (hash_of_granted hgranted)).ok_iff.mpr (hrest granted hgranted)

/-- The capture of a share: lines, which are texts, and a name that can be a key. -/
def LiveAclFit (a : Value) : Prop :=
  ∃ members, a = .dict members ∧ ∀ share, member members "share" = some share →
    ∀ lines, member members "list_acl" = some lines →
      (∃ texts : List String, lines.elements = some (texts.map .str)) ∧ Hashable share

/-- A capture that lacks nothing. -/
def LiveAclComplete (a : Value) : Prop :=
  ∃ share lines, Has a "share" share ∧ Has a "list_acl" lines

/-- The lines are joined, and the name is made a key. -/
theorem typed_aclText (share lines : Value) : Typed (do
      let text ← joinLines lines
      let key ← share.hash
      return (key, ShareAcls.parse_list_acl text))
    ((∃ texts : List String, lines.elements = some (texts.map .str)) ∧ Hashable share) :=
  (typed_joinLines lines).bind fun _ _ => (typed_hash share).map _

theorem handled_liveAcl {a : Value} : Handled Caught (liveAcl rt a) ↔ LiveAclFit a := by
  rw [liveAcl, handled_item_bind]
  refine exists_congr fun members => and_congr_right fun ha => ?_
  refine forall_congr' fun share => imp_congr_right fun _ => ?_
  subst ha
  rw [handled_item_bind]
  constructor
  · rintro ⟨_, hm, h⟩ lines hlines
    obtain rfl := Value.dict.inj hm
    exact (typed_handled (typed_aclText share lines)).mp (h lines hlines)
  · exact fun h => ⟨members, rfl, fun lines hlines =>
      (typed_handled (typed_aclText share lines)).mpr (h lines hlines)⟩

theorem liveAcl_returns_iff {a : Value} (h : LiveAclFit a) :
    (∃ live, liveAcl rt a = .ok live) ↔ LiveAclComplete a := by
  constructor
  · rintro ⟨live, hlive⟩
    obtain ⟨share, hshare, hlive⟩ := bind_eq_ok_iff.mp hlive
    obtain ⟨lines, hlines, -⟩ := bind_eq_ok_iff.mp hlive
    exact ⟨share, lines, item_eq_ok.mp hshare, item_eq_ok.mp hlines⟩
  · rintro ⟨share, lines, ⟨members, rfl, hshare⟩, _, hm, hlines⟩
    obtain rfl := Value.dict.inj hm
    obtain ⟨_, hm, hfit⟩ := h
    obtain rfl := Value.dict.inj hm
    rw [liveAcl, (item_eq_ok_iff rt).mpr ⟨members, rfl, hshare⟩, ok_bind,
      (item_eq_ok_iff rt).mpr ⟨members, rfl, hlines⟩, ok_bind]
    exact (typed_aclText share lines).ok_iff.mpr (hfit share hshare lines hlines)

/-- The files of the share permissions. -/
def AclsFit (rt : Runtime) (spec : List (Value × Value)) (snap : Value) : Prop :=
  ∃ members, snap = .dict members ∧
    ∃ captured, (memberOr members "share_acls" (.list [])).elements = some captured ∧
      Along LiveAclComplete LiveAclFit captured ∧
      ((∀ a ∈ captured, LiveAclComplete a) →
        (memberOr spec "acls" (.list [])).truthy = true →
        ∃ entries, (memberOr spec "acls" (.list [])).elements = some entries ∧
          Along (EntryComplete rt) (EntryFit rt) entries)

theorem handled_diff_acls {spec : List (Value × Value)} {snap : Value} :
    Handled Caught (diff_acls rt (.dict spec) snap) ↔ AclsFit rt spec snap := by
  rw [diff_acls, handled_get_bind]
  refine exists_congr fun members => and_congr_right fun _ => ?_
  rw [handled_iter_bind]
  refine exists_congr fun captured => and_congr_right fun _ => ?_
  refine handled_each_then (fun _ => handled_liveAcl) (fun _ => liveAcl_returns_iff)
    fun live_by_share => ?_
  rw [Value.get, ok_bind, handled_iter_bind]
  have hentries : ∀ entries : List Value, Handled Caught (do
      let drifts ← entries.mapM (diffEntry rt (Dict.ofItems live_by_share))
      return drifts.flatten) ↔ Along (EntryComplete rt) (EntryFit rt) entries := fun entries =>
    handled_last (fun _ => handled_diffEntry) fun _ => diffEntry_returns_iff
  simp only [hentries]
  cases (memberOr spec "acls" (.list [])).truthy with
  | true => simp
  | false =>
    simp only [Bool.false_eq_true, if_false, false_implies, iff_true]
    exact ⟨[], rfl, trivial⟩

end DriftReport
