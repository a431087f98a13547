/-
Where the drift detector and the helpers agree.

The detector has a report only where it can read the files of all resources, and of a resource only
where no entry lacks what it is compared by; a helper is called on each section by itself.  Besides,
the two read scalars in their own ways.  So either side may see a change that the other one does not.

* `Seen` — the snapshots hold what DSM answers;
* `Detects`, `detects_smb`, `detects_nfs`, `detects_rules`, `detects_acls` — what the detector reads
  of a section, and when it reports it;
* `changes_smb`, `changes_nfs`, `changes_rules`, `changes_acls` — the same of the helpers;
* `Alike`, `agree_iff_alike` — when both report a section, or neither does;
* `Plain`, `agree_iff` — sections that are written as meant; `quoted_false` — a flag in quotes.
-/
import KrgInfra.AclPlay
import KrgInfra.DriftHelpers

namespace DriftAgreement

open PyObject Raising DriftReport
open PyObject.Value (member memberOr differs same)
open ShareAcls (Tier)

variable {rt : Runtime}

/-! ### What is compared -/

/-- DSM has another value in some field. -/
def Off (live : Value) (desired : List (String × Value)) : Prop :=
  ∃ data, live = .dict data ∧
    ∃ field ∈ desired, differs (memberOr data field.1 .null) field.2 = true

variable (rt) in
/-- It has another value, also when that is read as one of the kind that is wanted. -/
def OffLike (live : Value) (desired : List (String × Value)) : Prop :=
  ∃ data, live = .dict data ∧ ∃ field ∈ desired,
    differs (coerceLike rt field.2 (memberOr data field.1 .null)) field.2 = true

variable (rt) in
/-- It has rules that are not printed so. -/
def OffRules (live : Value) (text : String) : Prop :=
  ∃ current, _norm_rules rt live = .ok current ∧ current ≠ text

/-- It has another set of names on a tier. -/
def OffTiers (listing : String) (granted : List (Tier × Key × Value)) : Prop :=
  ∃ tier, tierDiffers (tierSet tier granted) (ShareAcls.parse_list_acl listing tier) = true

theorem fieldDrift_eq_ok {resource start : String} {live : Value} {desired : List (String × Value)}
    {found : List D} (hne : desired ≠ []) :
    fieldDrift resource start live desired = .ok found ↔ ∃ data, live = .dict data ∧
      found = (desired.filter fun f => differs (memberOr data f.1 .null) f.2).map fun f =>
        ⟨resource, .str (start ++ f.1), f.2, memberOr data f.1 .null⟩ := by
  have hdict : ∀ data, fieldDrift resource start (.dict data) desired =
      .ok ((desired.filter fun f => differs (memberOr data f.1 .null) f.2).map fun f =>
        ⟨resource, .str (start ++ f.1), f.2, memberOr data f.1 .null⟩) := by
    intro data
    have hvalues : (desired.mapM fun field => do
        let value ← (Value.dict data).get field.1 .null
        return (field, value)) =
          (.ok (desired.map fun f => (f, memberOr data f.1 .null)) : Except Exn _) := by
      rw [mapM_eq_ok_iff, List.forall₂_map_right_iff]
      exact List.forall₂_same.mpr fun _ _ => rfl
    rw [fieldDrift, hvalues, ok_bind, List.filter_map, List.map_map]
    rfl
  constructor
  · intro h
    obtain ⟨field, rest, rfl⟩ := List.exists_cons_of_ne_nil hne
    obtain ⟨data, rfl⟩ := (typed_fieldDrift resource start live field rest).ok_iff.mp ⟨_, h⟩
    exact ⟨data, rfl, Except.ok.inj (h.symm.trans (hdict data))⟩
  · rintro ⟨data, rfl, rfl⟩
    exact hdict data

/-- Some field is reported if and only if DSM has another value in some field. -/
theorem exists_field_drift {resource start : String} {live : Value}
    {desired : List (String × Value)} :
    (∃ found, fieldDrift resource start live desired = .ok found ∧ found ≠ []) ↔
      Off live desired := by
  by_cases hne : desired = []
  · subst hne
    constructor
    · rintro ⟨found, h, hfound⟩
      exact absurd (Except.ok.inj h).symm hfound
    · rintro ⟨_, -, field, hfield, -⟩
      cases hfield
  simp only [fieldDrift_eq_ok hne]
  constructor
  · rintro ⟨_, ⟨data, rfl, rfl⟩, hfound⟩
    rw [ne_eq, List.map_eq_nil_iff, List.filter_eq_nil_iff] at hfound
    push Not at hfound
    exact ⟨data, rfl, hfound⟩
  · rintro ⟨data, rfl, field, hfield, hdiffers⟩
    refine ⟨_, ⟨data, rfl, rfl⟩, List.ne_nil_of_mem (List.mem_map.mpr ⟨field, ?_, rfl⟩)⟩
    exact List.mem_filter.mpr ⟨hfield, hdiffers⟩

/-! ### The detector's files -/

/-- The entries of a list of the spec. -/
def entries (spec : List (Value × Value)) (name : String) : List Value :=
  (memberOr spec name (.list [])).elements.getD []

/-- The snapshots are there, and hold what DSM answers: of every share that the spec has an entry
for, under its name. -/
structure Seen (rt : Runtime) (env : Env) (dsm : Dsm) : Prop where
  present : ∀ r ∈ [smb, nfs, acls], env.present (env.snap_path r) = true
  smb : ∃ snap, _load_yaml env (env.snap_path smb) = .ok (.dict snap) ∧
    webapi_data rt (memberOr snap "smb_raw" (.list [])) = .ok dsm.smb
  nfs : ∃ snap captured live_rules, _load_yaml env (env.snap_path nfs) = .ok (.dict snap) ∧
    webapi_data rt (memberOr snap "nfs_global_raw" (.list [])) = .ok dsm.nfs ∧
    (memberOr snap "nfs_rules_raw" (.list [])).iter = .ok captured ∧
    captured.mapM (liveRule rt) = .ok live_rules ∧
    ∀ spec, Loads env nfs spec → ∀ exp ∈ entries spec "exports", ∀ share key,
      Has exp "share" share → share.hash = .ok key →
      rulesFor live_rules key = dsm.rules (rt.str share)
  acls : ∃ snap captured live, _load_yaml env (env.snap_path acls) = .ok (.dict snap) ∧
    (memberOr snap "share_acls" (.list [])).iter = .ok captured ∧
    captured.mapM (liveAcl rt) = .ok live ∧
    ∀ spec, Loads env acls spec → ∀ entry ∈ entries spec "acls", ∀ share key,
      Has entry "share" share → share.hash = .ok key →
      (Dict.ofItems live).lookup key =
        some (ShareAcls.parse_list_acl (dsm.list_acl (rt.str share)))

/-- A difference is one of the section. -/
def About (d : D) : Section → Prop
  | .smb => d.resource = "smb"
  | .nfs => d.resource = "nfs" ∧ ∃ field, d.key = .str ("global." ++ field)
  | .rules share => d.resource = "nfs" ∧ d.key = .str ("rules." ++ share)
  | .acls share => d.resource = "acls" ∧ ∃ tier : Tier, d.key = .str (share ++ "." ++ tier.name)

/-- The detector reports drift of a section. -/
def Detects (rt : Runtime) (env : Env) (x : Section) : Prop :=
  ∃ results drifts, run rt env = .ok (results, drifts) ∧ ∃ d ∈ drifts, About d x

/-- The resource that a section is compared with. -/
def Section.resource : Section → Resource
  | .smb => DriftReport.smb
  | .nfs => DriftReport.nfs
  | .rules _ => DriftReport.nfs
  | .acls _ => DriftReport.acls

variable {env : Env} {dsm : Dsm}

theorem resource_of_about {d : D} {x : Section} (h : About d x) : d.resource = x.resource.name := by
  cases x with
  | smb => exact h
  | _ => exact h.1

/-- A section is reported where there is a report, and its files have a difference. -/
theorem detects_iff {x : Section} : Detects rt env x ↔
    Readable rt env ∧ ∃ spec snap found, _load_yaml env (env.spec_path x.resource) = .ok spec ∧
      x.resource.has_work spec = .ok true ∧ env.present (env.snap_path x.resource) = true ∧
      _load_yaml env (env.snap_path x.resource) = .ok snap ∧
      x.resource.diff_fn rt spec snap = .ok found ∧ ∃ d ∈ found, About d x := by
  have hr : x.resource ∈ RESOURCES := by cases x <;> simp [RESOURCES, Section.resource]
  generalize hresource : x.resource = r at hr
  have hP : ∀ d, About d x → d.resource = r.name := fun d hd => hresource ▸ resource_of_about hd
  rw [← run_returns_iff_readable]
  -- what the report has of the resource is what its check has
  have hpart : ∀ {results drifts out}, run rt env = .ok (results, drifts) →
      check rt env r = .ok out → drifts.filter (fun d => d.resource = r.name) = out.2 := by
    intro results drifts out hrun hout
    obtain ⟨outs, houts, heq⟩ := runFrom_eq_ok_iff.mp hrun
    obtain ⟨rfl, rfl⟩ := Prod.mk.inj heq
    exact (part_of_forall₂ houts (fun _ hr => hr) (by decide) hr hout).2
  constructor
  · rintro ⟨results, drifts, hrun, d, hd, hx⟩
    obtain ⟨out, hout⟩ := run_returns_iff.mp ⟨_, hrun⟩ r hr
    have hmem : d ∈ out.2 := by
      rw [← hpart hrun hout]
      exact List.mem_filter.mpr ⟨hd, decide_eq_true (hP d hx)⟩
    refine ⟨⟨_, hrun⟩, ?_⟩
    cases checked_of_check hout with
    | compared hspec hwork hsnap hcompare =>
      obtain ⟨snap, hload, hdiff⟩ := bind_eq_ok_iff.mp hcompare
      exact ⟨_, snap, _, hspec, hwork, hsnap, hload, hdiff, d, hmem, hx⟩
    | _ => cases hmem
  · rintro ⟨⟨⟨results, drifts⟩, hrun⟩, spec, snap, found, hspec, hwork, hsnap, hload, hdiff, d, hd,
      hx⟩
    obtain ⟨out, hout⟩ := run_returns_iff.mp ⟨_, hrun⟩ r hr
    have hfound : out.2 = found := by
      have hcompare : compare rt env r spec = .ok found := bind_eq_ok_iff.mpr ⟨snap, hload, hdiff⟩
      cases checked_of_check hout with
      | compared hspec' _ _ hcompare' =>
        obtain rfl := Except.ok.inj (hspec.symm.trans hspec')
        exact Except.ok.inj (hcompare'.symm.trans hcompare)
      | spec h => cases h.symm.trans hspec
      | idle h hidle =>
        obtain rfl := Except.ok.inj (hspec.symm.trans h)
        cases hidle.symm.trans hwork
      | noSnapshot h _ hnone => cases hnone.symm.trans hsnap
      | diff h _ _ hraise =>
        obtain rfl := Except.ok.inj (hspec.symm.trans h)
        cases hraise.symm.trans hcompare
    have hmem : d ∈ drifts.filter (fun d => d.resource = r.name) := by
      rw [hpart hrun hout, hfound]
      exact hd
    exact ⟨results, drifts, hrun, d, List.mem_of_mem_filter hmem, hx⟩

/-! ### What the detector reads -/

namespace Detector

/-- The five fields of SMB. -/
def Smb (rt : Runtime) (env : Env) (desired : List (String × Value)) : Prop :=
  Readable rt env ∧ ∃ spec, Loads env smb spec ∧ Declares "smb" spec ∧
    smbDesired rt (memberOr spec "smb" (.dict [])) = .ok desired

/-- A spec of NFS whose exports all name a share. -/
def NfsSpec (env : Env) (spec : List (Value × Value)) : Prop :=
  Loads env nfs spec ∧ (Declares "nfs" spec ∨ Declares "exports" spec) ∧
    ∀ exp ∈ entries spec "exports", ∃ share, Has exp "share" share

/-- The three fields of NFS. -/
def Nfs (rt : Runtime) (env : Env) (desired : List (String × Value)) : Prop :=
  Readable rt env ∧ ∃ spec, NfsSpec env spec ∧
    nfsDesired (memberOr spec "nfs" (.dict [])) = .ok desired

/-- The rules of a share, as they are printed. -/
def Rules (rt : Runtime) (env : Env) (share text : String) : Prop :=
  Readable rt env ∧ ∃ spec members, NfsSpec env spec ∧ .dict members ∈ entries spec "exports" ∧
    member members "share" = some (.str share) ∧
    _norm_rules rt (memberOr members "rules" (.list [])) = .ok text

/-- A spec of permissions whose entries lack nothing. -/
def AclsSpec (rt : Runtime) (env : Env) (spec : List (Value × Value)) : Prop :=
  Loads env acls spec ∧ Declares "acls" spec ∧ ∀ entry ∈ entries spec "acls", EntryComplete rt entry

/-- The names on the tiers of a share. -/
def Acls (rt : Runtime) (env : Env) (share : String) (granted : List (Tier × Key × Value)) : Prop :=
  Readable rt env ∧ ∃ spec members value, AclsSpec rt env spec ∧
    .dict members ∈ entries spec "acls" ∧ member members "share" = some value ∧
    rt.str value = share ∧ desired_tiers rt (memberOr members "grants" (.list [])) = .ok granted

end Detector

theorem nfsDesired_ne_nil {value : Value} {desired : List (String × Value)}
    (h : nfsDesired value = .ok desired) : desired ≠ [] := by
  simp only [nfsDesired, bind_eq_ok_iff] at h
  obtain ⟨_, -, _, -, _, -, h⟩ := h
  exact Except.ok.inj h ▸ List.cons_ne_nil _ _

/-- A resource that has something to check is a mapping. -/
theorem dict_of_hasSection {name : String} {sp : Value} (h : hasSection name sp = .ok true) :
    ∃ spec, sp = .dict spec ∧ Declares name spec := by
  obtain ⟨spec, rfl⟩ := (typed_hasSection name sp).ok_iff.mp ⟨_, h⟩
  exact ⟨spec, rfl, hasSection_dict.mp h⟩

theorem diff_smb_eq_ok {spec snap : List (Value × Value)} {live : Value} {found : List D}
    (hlive : webapi_data rt (memberOr snap "smb_raw" (.list [])) = .ok live) :
    diff_smb rt (.dict spec) (.dict snap) = .ok found ↔ ∃ desired,
      smbDesired rt (memberOr spec "smb" (.dict [])) = .ok desired ∧
        fieldDrift "smb" "" live desired = .ok found := by
  rw [diff_smb, Value.get, ok_bind, bind_eq_ok_iff]
  simp only [Value.get, ok_bind, hlive]

theorem detects_smb (hseen : Seen rt env dsm) : Detects rt env .smb ↔
    ∃ desired, Detector.Smb rt env desired ∧ Off dsm.smb desired := by
  obtain ⟨snap, hsnap, hlive⟩ := hseen.smb
  rw [detects_iff]
  constructor
  · rintro ⟨hread, sp, snap', found, hspec, hwork, -, hload, hfound, d, hd, -⟩
    obtain ⟨spec, rfl, hdeclares⟩ := dict_of_hasSection hwork
    obtain rfl := Except.ok.inj (hsnap.symm.trans hload)
    obtain ⟨desired, hdesired, hdrift⟩ := (diff_smb_eq_ok hlive).mp hfound
    exact ⟨desired, ⟨hread, spec, hspec, hdeclares, hdesired⟩,
      exists_field_drift.mp ⟨found, hdrift, List.ne_nil_of_mem hd⟩⟩
  · rintro ⟨desired, ⟨hread, spec, hspec, hdeclares, hdesired⟩, hoff⟩
    obtain ⟨found, hdrift, hne⟩ := exists_field_drift.mpr hoff
    obtain ⟨d, hd⟩ := List.exists_mem_of_ne_nil found hne
    exact ⟨hread, .dict spec, .dict snap, found, hspec, hasSection_dict.mpr hdeclares,
      hseen.present smb (by simp), hsnap, (diff_smb_eq_ok hlive).mpr ⟨desired, hdesired, hdrift⟩,
      d, hd, resource_fieldDrift hdrift d hd⟩

/-! ### NFS, as the detector reads it -/

theorem entries_eq_ok {spec : List (Value × Value)} {name : String} {items : List Value}
    (h : (memberOr spec name (.list [])).elements = some items) : entries spec name = items := by
  rw [entries, h, Option.getD_some]

/-- An export: where the rules are not printed alike, its share is a text. -/
theorem diffExport_eq_ok {live_rules : List (Key × Value)} {exp : Value} {found : List D} :
    diffExport rt (Dict.ofItems live_rules) exp = .ok found ↔
      ∃ members share key wanted current, exp = .dict members ∧
        member members "share" = some share ∧ share.hash = .ok key ∧
        _norm_rules rt (memberOr members "rules" (.list [])) = .ok wanted ∧
        _norm_rules rt (rulesFor live_rules key) = .ok current ∧
        (wanted = current ∧ found = [] ∨ wanted ≠ current ∧ ∃ name, share = .str name ∧
          found = [⟨"nfs", .str ("rules." ++ name), memberOr members "rules" (.list []),
            rulesFor live_rules key⟩]) := by
  simp only [diffExport, bind_eq_ok_iff, item_eq_ok, get_eq_ok_iff]
  constructor
  · rintro ⟨share, ⟨members, rfl, hshare⟩, _, ⟨_, hm, rfl⟩, key, hkey, wanted, hwanted, current,
      hcurrent, h⟩
    obtain rfl := Value.dict.inj hm
    refine ⟨members, share, key, wanted, current, rfl, hshare, hkey, hwanted, hcurrent, ?_⟩
    split_ifs at h with heq
    · exact .inl ⟨heq, (Except.ok.inj h).symm⟩
    · obtain ⟨name, hname, hfound⟩ := bind_eq_ok_iff.mp h
      obtain ⟨text, htext, hkeyed⟩ := bind_eq_ok_iff.mp hname
      obtain rfl := textOf_eq_ok_iff.mp htext
      obtain rfl := Except.ok.inj hkeyed
      exact .inr ⟨heq, text, rfl, (Except.ok.inj hfound).symm⟩
  · rintro ⟨members, share, key, wanted, current, rfl, hshare, hkey, hwanted, hcurrent, h⟩
    refine ⟨share, ⟨members, rfl, hshare⟩, _, ⟨members, rfl, rfl⟩, key, hkey, wanted, hwanted,
      current, hcurrent, ?_⟩
    obtain ⟨heq, rfl⟩ | ⟨hne, name, rfl, rfl⟩ := h
    · rw [if_pos heq]
      rfl
    · rw [if_neg hne]
      rfl

section Nfs

variable {snap : List (Value × Value)} {captured : List Value} {live_rules : List (Key × Value)}
  (hglobal : webapi_data rt (memberOr snap "nfs_global_raw" (.list [])) = .ok dsm.nfs)
  (hcaptured : (memberOr snap "nfs_rules_raw" (.list [])).iter = .ok captured)
  (hlive : captured.mapM (liveRule rt) = .ok live_rules)

include hglobal hcaptured hlive

theorem diff_nfs_eq_ok {spec : List (Value × Value)} {found : List D} :
    diff_nfs rt (.dict spec) (.dict snap) = .ok found ↔ ∃ desired globals drifts,
      nfsDesired (memberOr spec "nfs" (.dict [])) = .ok desired ∧
      fieldDrift "nfs" "global." dsm.nfs desired = .ok globals ∧
      (memberOr spec "exports" (.list [])).iter = .ok (entries spec "exports") ∧
      (entries spec "exports").mapM (diffExport rt (Dict.ofItems live_rules)) = .ok drifts ∧
      found = globals ++ drifts.flatten := by
  simp only [diff_nfs, Value.get, ok_bind, bind_eq_ok_iff, hglobal, hcaptured, hlive]
  constructor
  · rintro ⟨desired, hdesired, globals, hglobals, declared, hdeclared, drifts, hdrifts, h⟩
    have hentries : entries spec "exports" = declared := entries_eq_ok (iter_eq_ok_iff.mp hdeclared)
    rw [hentries]
    exact ⟨desired, globals, drifts, hdesired, hglobals, hdeclared, hdrifts, (Except.ok.inj h).symm⟩
  · rintro ⟨desired, globals, drifts, hdesired, hglobals, hdeclared, hdrifts, rfl⟩
    exact ⟨desired, hdesired, globals, hglobals, _, hdeclared, drifts, hdrifts, rfl⟩

/-- Where there is a report, and all exports name a share, they are all compared. -/
theorem nfs_compared (hread : Readable rt env)
    (hpresent : env.present (env.snap_path nfs) = true)
    (hsnap : _load_yaml env (env.snap_path nfs) = .ok (.dict snap))
    {spec : List (Value × Value)} (hspec : Detector.NfsSpec env spec) : ∃ desired globals drifts,
      nfsDesired (memberOr spec "nfs" (.dict [])) = .ok desired ∧
      fieldDrift "nfs" "global." dsm.nfs desired = .ok globals ∧
      (memberOr spec "exports" (.list [])).iter = .ok (entries spec "exports") ∧
      (entries spec "exports").mapM (diffExport rt (Dict.ofItems live_rules)) = .ok drifts := by
  obtain ⟨hload, hwork, hshares⟩ := hspec
  obtain ⟨_, hm, hfit⟩ := hread.nfs.2 _ hload
  obtain rfl := Value.dict.inj hm
  obtain ⟨⟨n, hn⟩, _, hm, -, hrest⟩ := (hfit hwork hpresent).2 _ hsnap
  obtain rfl := Value.dict.inj hm
  obtain ⟨⟨data, hdata⟩, captured', hcaptured', -, hexports⟩ :=
    hrest dsm.nfs (webapi_data_eq_ok_iff.mp hglobal)
  obtain rfl := Option.some.inj ((iter_eq_ok_iff.mp hcaptured).symm.trans hcaptured')
  have hall : List.Forall₂ (LiveRule rt) captured live_rules :=
    (mapM_eq_ok_iff.mp hlive).imp fun _ _ => liveRule_eq_ok_iff.mp
  obtain ⟨exports, helements, halong⟩ := hexports live_rules hall
  have hentries := entries_eq_ok helements
  rw [hentries] at hshares ⊢
  have hfits := halong.forall hshares
  obtain ⟨drifts, hdrifts⟩ := mapM_returns_iff.mpr fun exp hexp =>
    (diffExport_returns_iff (hfits exp hexp)).mpr (hshares exp hexp)
  obtain ⟨desired, hdesired⟩ : ∃ desired,
      nfsDesired (memberOr spec "nfs" (.dict [])) = .ok desired := hn ▸ ⟨_, rfl⟩
  obtain ⟨field, fields, rfl⟩ := List.exists_cons_of_ne_nil (nfsDesired_ne_nil hdesired)
  obtain ⟨globals, hglobals⟩ := (typed_fieldDrift "nfs" "global." dsm.nfs field fields).ok_iff.mpr
    ⟨data, hdata⟩
  exact ⟨_, globals, drifts, hdesired, hglobals, iter_eq_ok_iff.mpr helements, hdrifts⟩

omit hglobal hcaptured hlive in
/-- A difference of the settings is none of an export. -/
theorem key_of_global {live : Value} {desired : List (String × Value)} {globals : List D}
    (hne : desired ≠ []) (h : fieldDrift "nfs" "global." live desired = .ok globals) {d : D}
    (hd : d ∈ globals) : ∃ field, d.key = .str ("global." ++ field) := by
  obtain ⟨data, -, rfl⟩ := (fieldDrift_eq_ok hne).mp h
  obtain ⟨f, -, rfl⟩ := List.mem_map.mp hd
  exact ⟨f.1, rfl⟩

omit hglobal hcaptured hlive in
theorem global_ne_rules (a b : String) : "global." ++ a ≠ "rules." ++ b := by
  intro h
  have htext := congrArg (fun s => s.toList.head?) h
  simp at htext

omit hglobal hcaptured hlive in
theorem key_of_export {exports : List Value} {drifts : List (List D)}
    (h : exports.mapM (diffExport rt (Dict.ofItems live_rules)) = .ok drifts) {d : D}
    (hd : d ∈ drifts.flatten) : ∃ members key wanted current name, .dict members ∈ exports ∧
      member members "share" = some (.str name) ∧ (Value.str name).hash = .ok key ∧
      _norm_rules rt (memberOr members "rules" (.list [])) = .ok wanted ∧
      _norm_rules rt (rulesFor live_rules key) = .ok current ∧ wanted ≠ current ∧
      d.key = .str ("rules." ++ name) := by
  obtain ⟨found, hfound, hd⟩ := List.mem_flatten.mp hd
  obtain ⟨exp, hexp, hdiff⟩ := exists_of_mem_mapM h hfound
  obtain ⟨members, share, key, wanted, current, rfl, hshare, hkey, hwanted, hcurrent, hcase⟩ :=
    diffExport_eq_ok.mp hdiff
  obtain ⟨-, rfl⟩ | ⟨hne, name, rfl, rfl⟩ := hcase
  · cases hd
  · obtain rfl := List.mem_singleton.mp hd
    exact ⟨members, key, wanted, current, name, hexp, hshare, hkey, hwanted, hcurrent, hne, rfl⟩

end Nfs

/-- A resource of NFS that has something to check is a mapping. -/
theorem dict_of_nfs_work {sp : Value} (h : DriftReport.nfs.has_work sp = .ok true) :
    ∃ spec, sp = .dict spec ∧ (Declares "nfs" spec ∨ Declares "exports" spec) := by
  obtain ⟨spec, rfl⟩ := nfs_has_work_returns_iff.mp ⟨_, h⟩
  exact ⟨spec, rfl, nfs_has_work_dict.mp h⟩

/-- The exports that were compared name their shares. -/
theorem shares_of_compared {exports : List Value} {live_rules : List (Key × Value)}
    {drifts : List (List D)}
    (h : exports.mapM (diffExport rt (Dict.ofItems live_rules)) = .ok drifts) :
    ∀ exp ∈ exports, ∃ share, Has exp "share" share := by
  intro exp hexp
  obtain ⟨found, -, hfound⟩ := exists_of_mapM h hexp
  obtain ⟨members, share, -, -, -, rfl, hshare, -⟩ := diffExport_eq_ok.mp hfound
  exact ⟨share, members, rfl, hshare⟩

theorem detects_nfs (hseen : Seen rt env dsm) : Detects rt env .nfs ↔
    ∃ desired, Detector.Nfs rt env desired ∧ Off dsm.nfs desired := by
  obtain ⟨snap, captured, live_rules, hsnap, hglobal, hcaptured, hlive, -⟩ := hseen.nfs
  have hpresent := hseen.present nfs (by simp)
  rw [detects_iff]
  constructor
  · rintro ⟨hread, sp, snap', found, hload, hwork, -, hload', hfound, d, hd, -, field, hkey⟩
    obtain ⟨spec, rfl, hdeclares⟩ := dict_of_nfs_work hwork
    obtain rfl := Except.ok.inj (hsnap.symm.trans hload')
    obtain ⟨desired, globals, drifts, hdesired, hglobals, -, hdrifts, rfl⟩ :=
      (diff_nfs_eq_ok hglobal hcaptured hlive).mp hfound
    refine ⟨desired, ⟨hread, spec, ⟨hload, hdeclares, shares_of_compared hdrifts⟩, hdesired⟩, ?_⟩
    obtain hd | hd := List.mem_append.mp hd
    · exact exists_field_drift.mp ⟨globals, hglobals, List.ne_nil_of_mem hd⟩
    · obtain ⟨-, -, -, -, name, -, -, -, -, -, -, hrules⟩ := key_of_export hdrifts hd
      exact absurd (Value.str.inj (hkey.symm.trans hrules)) (global_ne_rules field name)
  · rintro ⟨desired, ⟨hread, spec, hspec, hdesired⟩, hoff⟩
    obtain ⟨desired', globals, drifts, hdesired', hglobals, hiter, hdrifts⟩ :=
      nfs_compared hglobal hcaptured hlive hread hpresent hsnap hspec
    obtain rfl := Except.ok.inj (hdesired.symm.trans hdesired')
    have hfields := nfsDesired_ne_nil hdesired
    obtain ⟨globals', hglobals', hne⟩ := exists_field_drift.mpr hoff
    obtain rfl := Except.ok.inj (hglobals.symm.trans hglobals')
    obtain ⟨d, hd⟩ := List.exists_mem_of_ne_nil globals hne
    refine ⟨hread, .dict spec, .dict snap, globals ++ drifts.flatten, hspec.1,
      nfs_has_work_dict.mpr hspec.2.1, hpresent, hsnap, (diff_nfs_eq_ok hglobal hcaptured hlive).mpr
        ⟨desired, globals, drifts, hdesired, hglobals, hiter, hdrifts, rfl⟩, d,
      List.mem_append_left _ hd, resource_fieldDrift hglobals d hd, key_of_global hfields hglobals hd⟩

theorem detects_rules (t : Transport rt) (hseen : Seen rt env dsm) (share : String) :
    Detects rt env (.rules share) ↔
      ∃ text, Detector.Rules rt env share text ∧ OffRules rt (dsm.rules share) text := by
  obtain ⟨snap, captured, live_rules, hsnap, hglobal, hcaptured, hlive, hrules⟩ := hseen.nfs
  have hpresent := hseen.present nfs (by simp)
  have hcurrent : ∀ {spec members}, Loads env DriftReport.nfs spec →
      .dict members ∈ entries spec "exports" → member members "share" = some (.str share) →
      rulesFor live_rules (.str share) = dsm.rules share := by
    intro spec members hload hmem hshare
    rw [hrules spec hload _ hmem (.str share) (.str share) ⟨members, rfl, hshare⟩ rfl, t.str_text]
  rw [detects_iff]
  constructor
  · rintro ⟨hread, sp, snap', found, hload, hwork, -, hload', hfound, d, hd, -, hkey⟩
    obtain ⟨spec, rfl, hdeclares⟩ := dict_of_nfs_work hwork
    obtain rfl := Except.ok.inj (hsnap.symm.trans hload')
    obtain ⟨desired, globals, drifts, hdesired, hglobals, -, hdrifts, rfl⟩ :=
      (diff_nfs_eq_ok hglobal hcaptured hlive).mp hfound
    obtain hd | hd := List.mem_append.mp hd
    · obtain ⟨field, hglobal'⟩ := key_of_global (nfsDesired_ne_nil hdesired) hglobals hd
      exact absurd (Value.str.inj (hglobal'.symm.trans hkey)) (global_ne_rules field share)
    obtain ⟨members, key, wanted, current, name, hmem, hshare, hhash, hwanted, hnorm, hne, hname⟩ :=
      key_of_export hdrifts hd
    obtain rfl : share = name := by
      have htext := congrArg String.toList (Value.str.inj (hkey.symm.trans hname))
      rw [String.toList_append, String.toList_append] at htext
      exact String.toList_inj.mp (List.append_cancel_left htext)
    obtain rfl := Except.ok.inj hhash
    rw [hcurrent hload hmem hshare] at hnorm
    exact ⟨wanted, ⟨hread, spec, members, ⟨hload, hdeclares, shares_of_compared hdrifts⟩, hmem,
      hshare, hwanted⟩, current, hnorm, hne.symm⟩
  · rintro ⟨wanted, ⟨hread, spec, members, hspec, hmem, hshare, hwanted⟩, current, hnorm, hne⟩
    obtain ⟨desired, globals, drifts, hdesired, hglobals, hiter, hdrifts⟩ :=
      nfs_compared hglobal hcaptured hlive hread hpresent hsnap hspec
    -- the export that was declared is the one that is compared
    obtain ⟨found, hfound, hdiff⟩ := exists_of_mapM hdrifts hmem
    rw [← hcurrent hspec.1 hmem hshare] at hnorm
    obtain ⟨_, _, _, _, _, hm, hshare', hhash, hwanted', hnorm', hcase⟩ := diffExport_eq_ok.mp hdiff
    obtain rfl := Value.dict.inj hm
    obtain rfl := Option.some.inj (hshare.symm.trans hshare')
    obtain rfl := Except.ok.inj hhash
    obtain rfl := Except.ok.inj (hwanted.symm.trans hwanted')
    obtain rfl := Except.ok.inj (hnorm.symm.trans hnorm')
    obtain ⟨heq, -⟩ | ⟨-, name, hname, rfl⟩ := hcase
    · exact absurd heq.symm hne
    obtain rfl := Value.str.inj hname
    refine ⟨hread, .dict spec, .dict snap, globals ++ drifts.flatten, hspec.1,
      nfs_has_work_dict.mpr hspec.2.1, hpresent, hsnap, (diff_nfs_eq_ok hglobal hcaptured hlive).mpr
        ⟨desired, globals, drifts, hdesired, hglobals, hiter, hdrifts, rfl⟩, _,
      List.mem_append_right _ (List.mem_flatten.mpr ⟨_, hfound, List.mem_singleton_self _⟩), rfl, rfl⟩

/-! ### Share permissions, as the detector reads them -/

theorem tierDiffers_drift {share : Value} {granted : List (Tier × Key × Value)}
    {live : ShareAcls.Tiers} {tier : Tier} {found : List D}
    (h : diffTier rt share granted live tier = .ok found) :
    (∀ d ∈ found, d.resource = "acls" ∧ d.key = .str (rt.str share ++ "." ++ tier.name)) ∧
      (found ≠ [] ↔ tierDiffers (tierSet tier granted) (live tier) = true) := by
  rw [diffTier] at h
  split_ifs at h with hsame
  · obtain rfl := Except.ok.inj h
    rw [hsame]
    exact ⟨fun _ hd => absurd hd List.not_mem_nil,
      iff_of_false (fun hne => hne rfl) Bool.false_ne_true⟩
  · simp only [bind_eq_ok_iff] at h
    obtain ⟨_, -, _, -, h⟩ := h
    obtain rfl := Except.ok.inj h
    refine ⟨fun d hd => ?_, iff_of_true (List.cons_ne_nil _ _) (Bool.not_eq_false _ ▸ hsame)⟩
    obtain rfl := List.mem_singleton.mp hd
    exact ⟨rfl, rfl⟩

/-- An entry: it is reported where the names on some tier are not those of DSM. -/
theorem diffEntry_eq_ok {live_by_share : List (Key × ShareAcls.Tiers)} {entry : Value}
    {found : List D} (h : diffEntry rt live_by_share entry = .ok found) :
    ∃ members share key granted, entry = .dict members ∧ member members "share" = some share ∧
      share.hash = .ok key ∧
      desired_tiers rt (memberOr members "grants" (.list [])) = .ok granted ∧
      (∀ d ∈ found, d.resource = "acls" ∧
        ∃ tier : Tier, d.key = .str (rt.str share ++ "." ++ tier.name)) ∧
      (found ≠ [] ↔ ∃ tier, tierDiffers (tierSet tier granted)
        (((live_by_share.lookup key).getD fun _ => []) tier) = true) := by
  simp only [diffEntry, bind_eq_ok_iff, item_eq_ok, get_eq_ok_iff] at h
  obtain ⟨share, ⟨members, rfl, hshare⟩, _, ⟨_, hm, rfl⟩, granted, hgranted, key, hkey, drifts,
    hdrifts, hfound⟩ := h
  obtain rfl := Value.dict.inj hm
  obtain rfl := Except.ok.inj hfound
  refine ⟨members, share, key, granted, rfl, hshare, hkey, hgranted, fun d hd => ?_, ?_⟩
  · obtain ⟨l, hl, hd⟩ := List.mem_flatten.mp hd
    obtain ⟨tier, -, htier⟩ := exists_of_mem_mapM hdrifts hl
    obtain ⟨hresource, hname⟩ := (tierDiffers_drift htier).1 d hd
    exact ⟨hresource, tier, hname⟩
  · constructor
    · intro hne
      obtain ⟨d, hd⟩ := List.exists_mem_of_ne_nil _ hne
      obtain ⟨l, hl, hd⟩ := List.mem_flatten.mp hd
      obtain ⟨tier, -, htier⟩ := exists_of_mem_mapM hdrifts hl
      exact ⟨tier, (tierDiffers_drift htier).2.mp (List.ne_nil_of_mem hd)⟩
    · rintro ⟨tier, hdiffers⟩
      obtain ⟨l, hl, htier⟩ := exists_of_mapM hdrifts (ShareAcls.mem_tiers tier)
      obtain ⟨d, hd⟩ := List.exists_mem_of_ne_nil l ((tierDiffers_drift htier).2.mpr hdiffers)
      exact List.ne_nil_of_mem (List.mem_flatten.mpr ⟨l, hl, hd⟩)

theorem truthy_of_declares {spec : List (Value × Value)} {name : String}
    (h : Declares name spec) : (memberOr spec name (.list [])).truthy = true := by
  rw [Declares, memberOr] at h
  rw [memberOr]
  cases hmember : member spec name with
  | none =>
    rw [hmember] at h
    cases h
  | some value =>
    rw [hmember] at h
    exact h

section Acls

variable {snap : List (Value × Value)} {captured : List Value}
  {live : List (Key × ShareAcls.Tiers)}
  (hcaptured : (memberOr snap "share_acls" (.list [])).iter = .ok captured)
  (hlive : captured.mapM (liveAcl rt) = .ok live)

include hcaptured hlive

theorem diff_acls_eq_ok {spec : List (Value × Value)} {found : List D}
    (hdeclares : Declares "acls" spec) : diff_acls rt (.dict spec) (.dict snap) = .ok found ↔
      ∃ drifts, (memberOr spec "acls" (.list [])).iter = .ok (entries spec "acls") ∧
        (entries spec "acls").mapM (diffEntry rt (Dict.ofItems live)) = .ok drifts ∧
        found = drifts.flatten := by
  simp only [diff_acls, Value.get, ok_bind, bind_eq_ok_iff, hcaptured, hlive,
    truthy_of_declares hdeclares, if_true]
  constructor
  · rintro ⟨declared, hdeclared, drifts, hdrifts, h⟩
    have hentries : entries spec "acls" = declared := entries_eq_ok (iter_eq_ok_iff.mp hdeclared)
    rw [hentries]
    exact ⟨drifts, hdeclared, hdrifts, (Except.ok.inj h).symm⟩
  · rintro ⟨drifts, hdeclared, hdrifts, rfl⟩
    exact ⟨_, hdeclared, drifts, hdrifts, rfl⟩

/-- Where there is a report, and no entry lacks anything, they are all compared. -/
theorem acls_compared (hread : Readable rt env)
    (hpresent : env.present (env.snap_path acls) = true)
    (hsnap : _load_yaml env (env.snap_path acls) = .ok (.dict snap))
    {spec : List (Value × Value)} (hspec : Detector.AclsSpec rt env spec) : ∃ drifts,
      (memberOr spec "acls" (.list [])).iter = .ok (entries spec "acls") ∧
      (entries spec "acls").mapM (diffEntry rt (Dict.ofItems live)) = .ok drifts := by
  obtain ⟨hload, hdeclares, hcomplete⟩ := hspec
  obtain ⟨_, hm, hfit⟩ := hread.acls.2 _ hload
  obtain rfl := Value.dict.inj hm
  obtain ⟨_, hm, captured', hcaptured', hfits, hrest⟩ := (hfit hdeclares hpresent).2 _ hsnap
  obtain rfl := Value.dict.inj hm
  obtain rfl := Option.some.inj ((iter_eq_ok_iff.mp hcaptured).symm.trans hcaptured')
  have hcaptures : ∀ a ∈ captured, LiveAclComplete a := by
    intro a ha
    obtain ⟨b, -, hb⟩ := exists_of_mapM hlive ha
    obtain ⟨share, hshare, hlines⟩ := bind_eq_ok_iff.mp hb
    obtain ⟨lines, hlines, -⟩ := bind_eq_ok_iff.mp hlines
    exact ⟨share, lines, item_eq_ok.mp hshare, item_eq_ok.mp hlines⟩
  obtain ⟨declared, helements, halong⟩ := hrest hcaptures (truthy_of_declares hdeclares)
  have hentries := entries_eq_ok helements
  rw [hentries] at hcomplete ⊢
  obtain ⟨drifts, hdrifts⟩ := mapM_returns_iff.mpr fun entry hentry =>
    have hfit := halong.forall hcomplete entry hentry
    (diffEntry_returns_iff hfit).mpr (hcomplete entry hentry)
  exact ⟨drifts, iter_eq_ok_iff.mpr helements, hdrifts⟩

end Acls

/-- The share can be told from what a difference is called. -/
theorem share_of_key {a b : String} {tier tier' : Tier}
    (h : a ++ "." ++ tier.name = b ++ "." ++ tier'.name) : a = b := by
  have hlength : ∀ tier : Tier, ("." ++ tier.name).toList.length = 3 := by
    intro tier
    cases tier <;> decide
  have htext : a.toList ++ ("." ++ tier.name).toList = b.toList ++ ("." ++ tier'.name).toList := by
    rw [← String.toList_append, ← String.toList_append, ← String.append_assoc,
      ← String.append_assoc, h]
  exact String.toList_inj.mp
    (List.append_inj_left' htext ((hlength tier).trans (hlength tier').symm))

theorem detects_acls (hseen : Seen rt env dsm) (share : String) :
    Detects rt env (.acls share) ↔
      ∃ granted, Detector.Acls rt env share granted ∧ OffTiers (dsm.list_acl share) granted := by
  obtain ⟨snap, captured, live, hsnap, hcaptured, hlive, hlisted⟩ := hseen.acls
  have hpresent := hseen.present acls (by simp)
  -- what an entry of the share is compared with
  have hlookup : ∀ {spec members value key}, Loads env DriftReport.acls spec →
      .dict members ∈ entries spec "acls" → member members "share" = some value →
      value.hash = .ok key → rt.str value = share →
      ((Dict.ofItems live).lookup key).getD (fun _ => []) =
        ShareAcls.parse_list_acl (dsm.list_acl share) := by
    rintro spec members value key hload hmem hvalue hkey rfl
    rw [hlisted spec hload _ hmem value key ⟨members, rfl, hvalue⟩ hkey, Option.getD_some]
  rw [detects_iff]
  constructor
  · rintro ⟨hread, sp, snap', found, hload, hwork, -, hload', hfound, d, hd, -, tier, hkey⟩
    obtain ⟨spec, rfl, hdeclares⟩ := dict_of_hasSection hwork
    obtain rfl := Except.ok.inj (hsnap.symm.trans hload')
    obtain ⟨drifts, -, hdrifts, rfl⟩ := (diff_acls_eq_ok hcaptured hlive hdeclares).mp hfound
    have hcomplete : ∀ entry ∈ entries spec "acls", EntryComplete rt entry := by
      intro entry hentry
      obtain ⟨l, -, hl⟩ := exists_of_mapM hdrifts hentry
      obtain ⟨members, value, key, granted, rfl, hvalue, -, hgranted, -⟩ := diffEntry_eq_ok hl
      obtain ⟨grants, hgrants, hall⟩ := desired_tiers_eq_ok_iff.mp hgranted
      exact ⟨members, value, grants, rfl, hvalue, hgrants, exists_forall₂_iff.mp ⟨_, hall⟩⟩
    obtain ⟨l, hl, hd⟩ := List.mem_flatten.mp hd
    obtain ⟨entry, hentry, hdiff⟩ := exists_of_mem_mapM hdrifts hl
    obtain ⟨members, value, key, granted, rfl, hvalue, hhash, hgranted, hkeys, hiff⟩ :=
      diffEntry_eq_ok hdiff
    obtain ⟨-, tier', hkey'⟩ := hkeys d hd
    have hshare : rt.str value = share :=
      share_of_key (Value.str.inj (hkey'.symm.trans hkey))
    have hoff := hiff.mp (List.ne_nil_of_mem hd)
    rw [hlookup hload hentry hvalue hhash hshare] at hoff
    exact ⟨granted, ⟨hread, spec, members, value, ⟨hload, hdeclares, hcomplete⟩, hentry, hvalue,
      hshare, hgranted⟩, hoff⟩
  · rintro ⟨granted, ⟨hread, spec, members, value, hspec, hmem, hvalue, hshare, hgranted⟩, hoff⟩
    obtain ⟨drifts, hiter, hdrifts⟩ := acls_compared hcaptured hlive hread hpresent hsnap hspec
    obtain ⟨l, hl, hdiff⟩ := exists_of_mapM hdrifts hmem
    obtain ⟨_, _, key, _, hm, hvalue', hhash, hgranted', hkeys, hiff⟩ := diffEntry_eq_ok hdiff
    obtain rfl := Value.dict.inj hm
    obtain rfl := Option.some.inj (hvalue.symm.trans hvalue')
    obtain rfl := Except.ok.inj (hgranted.symm.trans hgranted')
    rw [hlookup hspec.1 hmem hvalue hhash hshare] at hiff
    obtain ⟨d, hd⟩ := List.exists_mem_of_ne_nil l (hiff.mpr hoff)
    obtain ⟨hresource, tier, hkey⟩ := hkeys d hd
    refine ⟨hread, .dict spec, .dict snap, drifts.flatten, hspec.1, hasSection_dict.mpr hspec.2.1,
      hpresent, hsnap, (diff_acls_eq_ok hcaptured hlive hspec.2.1).mpr
        ⟨drifts, hiter, hdrifts, rfl⟩, d, List.mem_flatten.mpr ⟨l, hl, hd⟩, hresource, tier, ?_⟩
    rw [hkey, hshare]

/-! ### What the helpers read -/

namespace Helper

variable (t : Transport rt) (env : Env)

/-- The fields of SMB that are in the arguments. -/
def Smb (desired : List (String × Value)) : Prop :=
  ∃ spec a, Loads env smb spec ∧ smbArgs t spec = some a ∧ desired = desired_from_args a

/-- The fields of NFS that are in the arguments. -/
def Nfs (desired : List (String × Value)) : Prop :=
  ∃ spec found, Loads env nfs spec ∧ t.arguments (nfsLine spec) = some found ∧
    desired = globalDesired found

/-- The rules of a share in the document, as they are printed. -/
def Rules (share text : String) : Prop :=
  ∃ spec members value desired, Loads env nfs spec ∧ .dict members ∈ looped spec "exports" ∧
    member members "share" = some value ∧ rt.str value = share ∧
    t.document value (memberOr members "rules" (.list [])) = some desired ∧
    _norm_rules rt desired = .ok text

/-- The names on the tiers of a share, which can be sorted. -/
def Acls (share : String) (granted : List (Tier × Key × Value)) : Prop :=
  ∃ spec members value grants, Loads env acls spec ∧ .dict members ∈ looped spec "acls" ∧
    member members "share" = some value ∧ rt.str value = share ∧
    t.document value (memberOr members "grants" (.list [])) = some grants ∧
    setuserDesired rt grants = some granted ∧
    ∀ tier, Comparable ((tierSet tier granted).map Prod.snd)

end Helper

variable {t : Transport rt}

theorem changes_smb : Changes t env dsm .smb ↔
    ∃ desired, Helper.Smb t env desired ∧ Off dsm.smb desired := by
  have hdrift : ∀ a, smbDrift a dsm.smb = .ok true ↔ Off dsm.smb (desired_from_args a) := by
    intro a
    have hfields : (∃ found, fieldDrift "smb" "" dsm.smb (desired_from_args a) = .ok found ∧
        found ≠ []) ↔ Off dsm.smb (desired_from_args a) := exists_field_drift
    rw [smbDrift, bind_eq_ok_iff, ← hfields]
    refine exists_congr fun found => and_congr_right fun _ => ?_
    cases found with
    | nil => exact iff_of_false nofun fun h => h rfl
    | cons d found => exact iff_of_true rfl (List.cons_ne_nil d found)
  simp only [Changes, hdrift]
  constructor
  · rintro ⟨spec, a, hload, hargs, hoff⟩
    exact ⟨_, ⟨spec, a, hload, hargs, rfl⟩, hoff⟩
  · rintro ⟨_, ⟨spec, a, hload, hargs, rfl⟩, hoff⟩
    exact ⟨spec, a, hload, hargs, hoff⟩

theorem globalDrift_iff {live : Value} {desired : List (String × Value)} :
    globalDrift rt desired live = .ok true ↔ OffLike rt live desired := by
  have hdict : ∀ data, globalDrift rt desired (.dict data) = .ok (desired.any fun field =>
      differs (coerceLike rt field.2 (memberOr data field.1 .null)) field.2) := by
    intro data
    have hvalues : (desired.mapM fun field => do
        let value ← (Value.dict data).get field.1 .null
        return (field.2, value)) =
          (.ok (desired.map fun f => (f.2, memberOr data f.1 .null)) : Except Exn _) := by
      rw [mapM_eq_ok_iff, List.forall₂_map_right_iff]
      exact List.forall₂_same.mpr fun _ _ => rfl
    rw [globalDrift, hvalues, ok_bind, List.any_map]
    rfl
  constructor
  · intro h
    cases desired with
    | nil => cases h
    | cons field fields =>
      have hget : ∀ f : String × Value, Typed (do
          let value ← live.get f.1 .null
          return (f.2, value)) (∃ data, live = .dict data) := fun f =>
        (typed_get live f.1 .null).map _
      have hall := (Strict.mapM hget (field :: fields)).map fun found =>
        found.any fun f => differs (coerceLike rt f.1 f.2) f.1
      obtain ⟨data, rfl⟩ := hall.ok_iff.mp ⟨_, h⟩ field List.mem_cons_self
      rw [hdict, Except.ok.injEq, List.any_eq_true] at h
      exact ⟨data, rfl, h⟩
  · rintro ⟨data, rfl, h⟩
    rw [hdict, Except.ok.injEq, List.any_eq_true]
    exact h

theorem changes_nfs : Changes t env dsm .nfs ↔
    ∃ desired, Helper.Nfs t env desired ∧ OffLike rt dsm.nfs desired := by
  simp only [Changes, globalDrift_iff]
  constructor
  · rintro ⟨spec, found, hload, hargs, hoff⟩
    exact ⟨_, ⟨spec, found, hload, hargs, rfl⟩, hoff⟩
  · rintro ⟨_, ⟨spec, found, hload, hargs, rfl⟩, hoff⟩
    exact ⟨spec, found, hload, hargs, hoff⟩

theorem changes_rules (share : String) : Changes t env dsm (.rules share) ↔
    ∃ text, Helper.Rules t env share text ∧ OffRules rt (dsm.rules share) text := by
  have hdrift : ∀ desired, rulesDrift rt desired (dsm.rules share) = .ok true ↔
      ∃ text, _norm_rules rt desired = .ok text ∧ OffRules rt (dsm.rules share) text := by
    intro desired
    simp only [rulesDrift, _norm, bind_eq_ok_iff, OffRules]
    constructor
    · rintro ⟨current, hcurrent, wanted, hwanted, h⟩
      exact ⟨wanted, hwanted, current, hcurrent, of_decide_eq_true (Except.ok.inj h)⟩
    · rintro ⟨wanted, hwanted, current, hcurrent, hne⟩
      exact ⟨current, hcurrent, wanted, hwanted, congrArg Except.ok (decide_eq_true hne)⟩
  simp only [Changes, hdrift]
  constructor
  · rintro ⟨spec, members, value, desired, hload, hmem, hvalue, hshare, hdocument, text, htext, hoff⟩
    exact ⟨text, ⟨spec, members, value, desired, hload, hmem, hvalue, hshare, hdocument, htext⟩, hoff⟩
  · rintro ⟨text, ⟨spec, members, value, desired, hload, hmem, hvalue, hshare, hdocument, htext⟩, hoff⟩
    exact ⟨spec, members, value, desired, hload, hmem, hvalue, hshare, hdocument, text, htext, hoff⟩

/-- The names of a tier that is as DSM has it are texts, and so they can be sorted. -/
theorem comparable_of_same {granted : List (Tier × Key × Value)} {live : List String} {tier : Tier}
    (hgranted : ∀ g ∈ granted, g.2.2.hash = .ok g.2.1)
    (hsame : tierDiffers (tierSet tier granted) live = false) :
    Comparable ((tierSet tier granted).map Prod.snd) := by
  rw [tierDiffers, Bool.not_eq_false', Bool.and_eq_true, List.all_eq_true] at hsame
  obtain ⟨texts, htexts⟩ := forall_isStr_iff.mp fun v hv => by
    obtain ⟨element, helement, rfl⟩ := List.mem_map.mp hv
    obtain ⟨name, -, hname⟩ := List.mem_map.mp (of_decide_eq_true (hsame.1 element helement))
    have hhash := hash_of_mem_tierSet hgranted helement
    rw [← hname] at hhash
    exact ⟨name, hash_eq_str_iff.mp hhash⟩
  rw [htexts]
  exact comparable_texts texts

theorem setuserDrift_iff {granted : List (Tier × Key × Value)} {current : ShareAcls.Tiers}
    (hgranted : ∀ g ∈ granted, g.2.2.hash = .ok g.2.1) : setuserDrift granted current = .ok true ↔
      (∀ tier, Comparable ((tierSet tier granted).map Prod.snd)) ∧
        ∃ tier, tierDiffers (tierSet tier granted) (current tier) = true := by
  -- a tier that differs is sorted for the command, which fails on names that cannot be compared
  have htier : ∀ tier b, ((if tierDiffers (tierSet tier granted) (current tier) then do
      let _ ← sorted id ((tierSet tier granted).map Prod.snd)
      return true
    else return false) : Except Exn Bool) = .ok b ↔
      b = tierDiffers (tierSet tier granted) (current tier) ∧
        Comparable ((tierSet tier granted).map Prod.snd) := by
    intro tier b
    cases hdiffers : tierDiffers (tierSet tier granted) (current tier) with
    | false =>
      rw [if_neg Bool.false_ne_true]
      refine ⟨fun h => ⟨(Except.ok.inj h).symm, comparable_of_same hgranted hdiffers⟩, ?_⟩
      exact fun h => congrArg Except.ok h.1.symm
    | true =>
      have hsorted := typed_sorted id ((tierSet tier granted).map Prod.snd)
      rw [List.map_id] at hsorted
      rw [if_pos rfl, bind_eq_ok_iff, ← hsorted.ok_iff]
      constructor
      · rintro ⟨l, hl, h⟩
        exact ⟨(Except.ok.inj h).symm, l, hl⟩
      · rintro ⟨rfl, l, hl⟩
        exact ⟨l, hl, rfl⟩
  rw [setuserDrift, bind_eq_ok_iff]
  constructor
  · rintro ⟨drifts, hdrifts, hany⟩
    refine ⟨fun tier => ?_, ?_⟩
    · obtain ⟨b, -, hb⟩ := exists_of_mapM hdrifts (ShareAcls.mem_tiers tier)
      exact ((htier tier b).mp hb).2
    · obtain ⟨b, hb, rfl⟩ := List.any_eq_true.mp (Except.ok.inj hany)
      obtain ⟨tier, -, htrue⟩ := exists_of_mem_mapM hdrifts hb
      exact ⟨tier, ((htier tier _).mp htrue).1.symm⟩
  · rintro ⟨hcomparable, tier, hdiffers⟩
    obtain ⟨drifts, hdrifts⟩ := mapM_returns_iff.mpr fun tier (_ : tier ∈ ShareAcls.tiers) =>
      ⟨_, (htier tier _).mpr ⟨rfl, hcomparable tier⟩⟩
    obtain ⟨b, hb, htrue⟩ := exists_of_mapM hdrifts (ShareAcls.mem_tiers tier)
    refine ⟨drifts, hdrifts, congrArg Except.ok (List.any_eq_true.mpr ⟨b, hb, ?_⟩)⟩
    rw [id, ((htier tier b).mp htrue).1, hdiffers]

theorem toOption_eq_some {ε α : Type} {x : Except ε α} {a : α} :
    x.toOption = some a ↔ x = .ok a := by
  cases x <;> simp [Except.toOption]

/-- The helper takes the name from where the detector does. -/
theorem grantName_iff {g name : Value} : grantName rt g = some name ↔
    ∃ members, g = .dict members ∧ principalOf members = some name := by
  by_cases hg : ∃ members, g = .dict members
  · obtain ⟨members, rfl⟩ := hg
    have hcontains : ∀ name, contains name (.dict members) = .ok (member members name).isSome :=
      fun _ => rfl
    have hiff : grantName rt (.dict members) = some name ↔ principalOf members = some name := by
      simp only [grantName, hcontains, Option.bind_eq_bind, Except.toOption, Option.bind_some,
        principalOf]
      cases hgroup : member members "group" with
      | none =>
        cases huser : member members "user" with
        | none => simp
        | some user => simp [Value.item, huser]
      | some group =>
        cases group with
        | str s => simp [Value.item, hgroup, concat, textOf]
        | _ => simp [Value.item, hgroup, concat, textOf]
    rw [hiff]
    refine ⟨fun h => ⟨members, rfl, h⟩, ?_⟩
    rintro ⟨_, hm, h⟩
    exact Value.dict.inj hm ▸ h
  · refine iff_of_false (fun h => ?_) fun h => hg (h.imp fun _ hm => hm.1)
    have hitem : ∀ name, (g.item rt name).toOption = none := by
      intro name
      cases g with
      | dict members => exact absurd ⟨members, rfl⟩ hg
      | _ => rfl
    rw [grantName] at h
    simp only [hitem, Option.bind_eq_bind, Option.bind_none] at h
    obtain ⟨inGroup, -, h⟩ := Option.bind_eq_some_iff.mp h
    split_ifs at h
    obtain ⟨inUser, -, h⟩ := Option.bind_eq_some_iff.mp h
    split_ifs at h

/-- A grant gives the helper what it gives the detector. -/
theorem setuserGrant_iff (t : Transport rt) {g : Value} {granted : Tier × Key × Value} :
    setuserGrant rt g = some granted ↔ GrantOf rt g granted := by
  have htier : ∀ members tier, grantTier rt (.dict members) = some tier ↔
      ∃ access, member members "access" = some access ∧ tierOf rt access = some tier := by
    intro members tier
    rw [grantTier, Value.get, memberOr]
    cases haccess : member members "access" with
    | some access => simp [Except.toOption]
    | none =>
      -- a grant without an access has that of no tier
      have hnone : ShareAcls.tierOf "".toLower = none := by decide +kernel
      simp [Except.toOption, tierOf, t.str_text, hnone]
  rw [setuserGrant]
  simp only [Option.bind_eq_bind, Option.bind_eq_some_iff, grantName_iff, toOption_eq_some,
    keyed_eq_ok_iff]
  constructor
  · rintro ⟨name, ⟨members, rfl, hname⟩, tier, htier', element, ⟨rfl, hkey⟩, h⟩
    obtain ⟨access, haccess, htier'⟩ := (htier members tier).mp htier'
    obtain rfl := Option.some.inj h
    exact ⟨members, access, rfl, hname, haccess, htier', hkey⟩
  · rintro ⟨members, access, rfl, hname, haccess, htier', hkey⟩
    exact ⟨_, ⟨members, rfl, hname⟩, _, (htier members _).mpr ⟨access, haccess, htier'⟩, _,
      ⟨rfl, hkey⟩, rfl⟩

theorem mapM_eq_some_iff {α β : Type} {f : α → Option β} {l : List α} : ∀ {bs : List β},
    l.mapM f = some bs ↔ List.Forall₂ (fun a b => f a = some b) l bs := by
  induction l with
  | nil =>
    intro bs
    rw [List.mapM_nil, List.forall₂_nil_left_iff]
    exact ⟨fun h => (Option.some.inj h).symm, fun h => h ▸ rfl⟩
  | cons a l ih =>
    intro bs
    rw [List.mapM_cons, Option.bind_eq_bind, Option.bind_eq_some_iff, List.forall₂_cons_left_iff]
    refine exists_congr fun b => ?_
    constructor
    · rintro ⟨hb, hrest⟩
      obtain ⟨bs', hbs, h⟩ := Option.bind_eq_some_iff.mp hrest
      exact ⟨bs', hb, ih.mp hbs, (Option.some.inj h).symm⟩
    · rintro ⟨bs', hb, hbs, rfl⟩
      exact ⟨hb, Option.bind_eq_some_iff.mpr ⟨bs', ih.mpr hbs, rfl⟩⟩

/-- So do all of them. -/
theorem setuserDesired_iff (t : Transport rt) {grants : Value}
    {granted : List (Tier × Key × Value)} :
    setuserDesired rt grants = some granted ↔ desired_tiers rt grants = .ok granted := by
  have hrel : (fun g x => setuserGrant rt g = some x) = GrantOf rt :=
    funext fun g => funext fun x => propext (setuserGrant_iff t)
  rw [desired_tiers_eq_ok_iff, setuserDesired, Option.bind_eq_bind, Option.bind_eq_some_iff]
  simp only [mapM_eq_some_iff, hrel]

theorem changes_acls (share : String) : Changes t env dsm (.acls share) ↔
    ∃ granted, Helper.Acls t env share granted ∧ OffTiers (dsm.list_acl share) granted := by
  have hdrift : ∀ {grants granted}, setuserDesired rt grants = some granted →
      (setuserDrift granted (ShareAcls.parse_list_acl (dsm.list_acl share)) = .ok true ↔
        (∀ tier, Comparable ((tierSet tier granted).map Prod.snd)) ∧
          OffTiers (dsm.list_acl share) granted) := by
    intro grants granted hgranted
    obtain ⟨items, -, hall⟩ := desired_tiers_eq_ok_iff.mp ((setuserDesired_iff t).mp hgranted)
    exact setuserDrift_iff (hash_of_granted hall)
  constructor
  · rintro ⟨spec, members, value, grants, granted, hload, hmem, hvalue, hshare, hdocument, hgranted,
      hreport⟩
    obtain ⟨hcomparable, hoff⟩ := (hdrift hgranted).mp hreport
    exact ⟨granted, ⟨spec, members, value, grants, hload, hmem, hvalue, hshare, hdocument, hgranted,
      hcomparable⟩, hoff⟩
  · rintro ⟨granted, ⟨spec, members, value, grants, hload, hmem, hvalue, hshare, hdocument, hgranted,
      hcomparable⟩, hoff⟩
    exact ⟨spec, members, value, grants, granted, hload, hmem, hvalue, hshare, hdocument, hgranted,
      (hdrift hgranted).mpr ⟨hcomparable, hoff⟩⟩

/-! ### What is judged alike -/

/-- DSM has all that either side reads, or each side reads something else. -/
def Judged {α : Type} (reads reads' off off' : α → Prop) : Prop :=
  (∀ w, reads w → ¬ off w) ∧ (∀ w, reads' w → ¬ off' w) ∨
    (∃ w, reads w ∧ off w) ∧ ∃ w, reads' w ∧ off' w

theorem judged_iff {α : Type} {reads reads' off off' : α → Prop} :
    ((∃ w, reads w ∧ off w) ↔ ∃ w, reads' w ∧ off' w) ↔ Judged reads reads' off off' := by
  have hnone : ∀ {reads off : α → Prop}, (∀ w, reads w → ¬ off w) ↔ ¬ ∃ w, reads w ∧ off w := by
    intro reads off
    rw [not_exists]
    exact forall_congr' fun w => not_and.symm
  rw [Judged, hnone, hnone]
  exact iff_iff_and_or_not_and_not.trans or_comm

/-- Both sides judge a section alike, by what they read of it. -/
def Alike (t : Transport rt) (env : Env) (dsm : Dsm) : Section → Prop
  | .smb => Judged (Detector.Smb rt env) (Helper.Smb t env) (Off dsm.smb) (Off dsm.smb)
  | .nfs => Judged (Detector.Nfs rt env) (Helper.Nfs t env) (Off dsm.nfs) (OffLike rt dsm.nfs)
  | .rules share => Judged (Detector.Rules rt env share) (Helper.Rules t env share)
      (OffRules rt (dsm.rules share)) (OffRules rt (dsm.rules share))
  | .acls share => Judged (Detector.Acls rt env share) (Helper.Acls t env share)
      (OffTiers (dsm.list_acl share)) (OffTiers (dsm.list_acl share))

/-- The detector and the helpers agree about a section exactly where they judge it alike. -/
theorem agree_iff_alike (t : Transport rt) (hseen : Seen rt env dsm) (x : Section) :
    (Detects rt env x ↔ Changes t env dsm x) ↔ Alike t env dsm x := by
  cases x with
  | smb =>
    rw [detects_smb hseen, changes_smb]
    exact judged_iff
  | nfs =>
    rw [detects_nfs hseen, changes_nfs]
    exact judged_iff
  | rules share =>
    rw [detects_rules t hseen, changes_rules]
    exact judged_iff
  | acls share =>
    rw [detects_acls hseen, changes_acls]
    exact judged_iff

/-! ### Sections that are written as meant -/

/-- Members that are flags, where they are there. -/
def Flags (members : List (Value × Value)) (names : List String) : Prop :=
  ∀ name ∈ names, ∀ value, member members name = some value → ∃ b, value = .bool b

/-- SMB: flags that are flags, and protocols that have a number.  NFS: the same, a domain that is a
text, and an answer of DSM with flags and a text.  Shares: one that has a plain name, and what comes
back from JSON. -/
def Plain (rt : Runtime) (env : Env) (dsm : Dsm) : Section → Prop
  | .smb => ∃ spec s, Loads env smb spec ∧ member spec "smb" = some (.dict s) ∧ s ≠ [] ∧
      Flags s ["enable", "server_signing", "ntlmv1_auth"] ∧ Known (minName s) ∧ Known (maxName s)
  | .nfs => ∃ spec n data, Detector.NfsSpec env spec ∧ member spec "nfs" = some (.dict n) ∧
      Flags n ["enable", "nfsv4"] ∧ (∃ s, memberOr n "v4_domain" (.str "") = .str s ∧ Quotable s) ∧
      dsm.nfs = .dict data ∧ Flags data ["enable_nfs", "enable_nfs_v4"] ∧
      ∀ value, member data "nfs_v4_domain" = some value → ∃ s, value = .str s
  | .rules share => Quotable share ∧ ∃ spec exports, Detector.NfsSpec env spec ∧
      memberOr spec "exports" (.list []) = .list exports ∧
      ∀ members value, .dict members ∈ exports → member members "share" = some value →
        rt.str value = share →
        value = .str share ∧ Carried (memberOr members "rules" (.list []))
  | .acls share => Quotable share ∧ ∃ spec entries, Detector.AclsSpec rt env spec ∧
      memberOr spec "acls" (.list []) = .list entries ∧
      ∀ members value, .dict members ∈ entries → member members "share" = some value →
        rt.str value = share →
        value = .str share ∧ Carried (memberOr members "grants" (.list []))

theorem Flags.bool {members : List (Value × Value)} {names : List String} (h : Flags members names)
    {name : String} (hname : name ∈ names) (default : Bool) :
    ∃ b, memberOr members name (.bool default) = .bool b := by
  rw [memberOr]
  cases hmember : member members name with
  | none => exact ⟨default, rfl⟩
  | some value => exact h name hname value hmember

theorem pyBool_shown (b : Bool) : Python.pyBool (if b then "True" else "False") = b := by
  cases b <;> decide +kernel

/-- A protocol that has a number is a word. -/
theorem word_of_known {value : Value} (h : Known value) :
    ∃ s n, value = .str s ∧ Word s ∧ PROTO.lookup s = some n := by
  obtain ⟨s, hs, rfl⟩ := h
  simp only [PROTO, List.map_cons, List.map_nil, List.mem_cons, List.not_mem_nil, or_false] at hs
  obtain rfl | rfl | rfl := hs
  · exact ⟨_, 1, rfl, ⟨by decide, by decide, by decide⟩, rfl⟩
  · exact ⟨_, 2, rfl, ⟨by decide, by decide, by decide⟩, rfl⟩
  · exact ⟨_, 3, rfl, ⟨by decide, by decide, by decide⟩, rfl⟩

theorem loads_unique {r : Resource} {spec spec' : List (Value × Value)} (h : Loads env r spec)
    (h' : Loads env r spec') : spec' = spec :=
  Value.dict.inj (Except.ok.inj (h'.symm.trans h))

theorem off_congr {live : Value} {desired desired' : List (String × Value)}
    (h : ∀ field, field ∈ desired ↔ field ∈ desired') : Off live desired ↔ Off live desired' :=
  exists_congr fun _ => and_congr_right fun _ => exists_congr fun field => and_congr_left fun _ =>
    h field

theorem truthy_bool (b : Bool) : (Value.bool b).truthy = b := by
  cases b <;> rfl

theorem memberOr_of_member {members : List (Value × Value)} {name : String} {value default : Value}
    (h : member members name = some value) : memberOr members name default = value := by
  rw [memberOr, h, Option.getD_some]

theorem protocol_of_lookup {name : String} {k : ℤ} (h : PROTO.lookup name = some k) :
    protocol rt (.str name) = .ok (.int k) := by
  rw [protocol, Value.hash, ok_bind]
  simp only [h]

theorem smb_alike (hread : Readable rt env) (hplain : Plain rt env dsm .smb) :
    Alike t env dsm .smb := by
  obtain ⟨spec, s, hload, hsection, hne, hflags, hmin, hmax⟩ := hplain
  obtain ⟨enable, henable⟩ := hflags.bool List.mem_cons_self true
  obtain ⟨signing, hsigning⟩ := hflags.bool (List.mem_cons_of_mem _ List.mem_cons_self) true
  obtain ⟨ntlm, hntlm⟩ :=
    hflags.bool (List.mem_cons_of_mem _ (List.mem_cons_of_mem _ List.mem_cons_self)) false
  obtain ⟨p, m, hp, hpword, hm⟩ := word_of_known hmin
  obtain ⟨q, n, hq, hqword, hn⟩ := word_of_known hmax
  have hdeclares : Declares "smb" spec := by
    rw [Declares, memberOr, hsection]
    simp [Value.truthy, hne]
  have hmember : memberOr spec "smb" (.dict []) = .dict s := memberOr_of_member hsection
  -- the words of the role, and what the helper reads of them
  have hline : smbLine spec = [⟨"--enable", .bool enable, false⟩, ⟨"--min-protocol", .str p, false⟩,
      ⟨"--max-protocol", .str q, false⟩, ⟨"--server-signing", .bool signing, false⟩,
      ⟨"--ntlmv1-auth", .bool ntlm, false⟩] := by
    rw [smbLine, sectionOf, hsection, ← henable, ← hp, ← hq, ← hsigning, ← hntlm]
  obtain ⟨found, hfound, hshown⟩ := t.arguments_plain (smbLine spec) (by simp [hline]) (by
    rw [hline]
    simp [Arg.Plain, hpword, hqword])
  rw [hline] at hshown
  simp only [List.forall_mem_cons, shown] at hshown
  obtain ⟨h₁, h₂, h₃, h₄, h₅, -⟩ := hshown
  have hargs : smbArgs t spec = some ⟨some p, some q, some (if enable then "True" else "False"),
      some (if signing then "True" else "False"), some (if ntlm then "True" else "False")⟩ := by
    rw [smbArgs, hfound]
    simp [h₁, h₂, h₃, h₄, h₅, choices, hm, hn]
  have hdesired : smbDesired rt (.dict s) = .ok [("enable_samba", .bool enable),
      ("smb_min_protocol", .int m), ("smb_max_protocol", .int n),
      ("enable_server_signing", .int (if signing then 1 else 0)),
      ("enable_ntlmv1_auth", .bool ntlm)] := by
    simp only [smbDesired, Value.get, ok_bind, henable, hsigning, hntlm,
      show memberOr s "min_protocol" (.str "SMB2") = _ from hp,
      show memberOr s "max_protocol" (.str "SMB3") = _ from hq, protocol_of_lookup hm,
      protocol_of_lookup hn, truthy_bool]
    rfl
  refine judged_iff.mp ?_
  -- each side has one spec to read, and so one list of fields
  have hdetector : ∀ w, Detector.Smb rt env w ↔ .ok w = smbDesired rt (.dict s) := by
    intro w
    constructor
    · rintro ⟨-, spec', hload', -, hw⟩
      obtain rfl := loads_unique hload hload'
      rw [← hw, hmember]
    · intro hw
      exact ⟨hread, spec, hload, hdeclares, hmember ▸ hw.symm⟩
  have hhelper : ∀ w, Helper.Smb t env w ↔ ∃ a, smbArgs t spec = some a ∧ w = desired_from_args a := by
    intro w
    constructor
    · rintro ⟨spec', a, hload', ha, hw⟩
      obtain rfl := loads_unique hload hload'
      exact ⟨a, ha, hw⟩
    · rintro ⟨a, ha, hw⟩
      exact ⟨spec, a, hload, ha, hw⟩
  simp only [hdetector, hhelper, hdesired, hargs, Except.ok.injEq, Option.some.injEq,
    exists_eq_left', exists_eq_left]
  refine off_congr fun field => ?_
  have hnep : p ≠ "" ∧ q ≠ "" := ⟨hpword.1, hqword.1⟩
  simp only [desired_from_args, protoField, flagField, if_neg hnep.1, if_neg hnep.2, hm, hn,
    Option.getD_some, pyBool_shown, List.mem_append, List.mem_cons, List.not_mem_nil, or_false]
  tauto

/-- A value that is of the kind that is wanted is taken as it is. -/
theorem coerceLike_flag (b c : Bool) : coerceLike rt (.bool b) (.bool c) = .bool c := by
  rw [coerceLike]
  split_ifs <;> rfl

theorem coerceLike_text (a b : String) : coerceLike rt (.str a) (.str b) = .str b := by
  rw [coerceLike]
  split_ifs <;> rfl

theorem coerceLike_null (target : Value) : coerceLike rt target .null = .null := by
  unfold coerceLike
  rw [if_pos (by simp [same])]

theorem nfs_alike (hread : Readable rt env) (hplain : Plain rt env dsm .nfs) :
    Alike t env dsm .nfs := by
  obtain ⟨spec, n, data, hspec, hsection, hflags, ⟨domain, hdomain, hquotable⟩, hdata, hlive,
    hliveDomain⟩ := hplain
  obtain ⟨enable, henable⟩ := hflags.bool List.mem_cons_self true
  obtain ⟨v4, hv4⟩ := hflags.bool (List.mem_cons_of_mem _ List.mem_cons_self) true
  have hmember : memberOr spec "nfs" (.dict []) = .dict n := memberOr_of_member hsection
  have hline : nfsLine spec = [⟨"--enable", .bool enable, false⟩, ⟨"--nfsv4", .bool v4, false⟩,
      ⟨"--v4-domain", .str domain, true⟩] := by
    rw [nfsLine, sectionOf, hsection, ← henable, ← hv4, ← hdomain]
  obtain ⟨found, hfound, hshown⟩ := t.arguments_plain (nfsLine spec) (by simp [hline]) (by
    rw [hline]
    simp [Arg.Plain, hquotable])
  rw [hline] at hshown
  simp only [List.forall_mem_cons, shown] at hshown
  obtain ⟨h₁, h₂, h₃, -⟩ := hshown
  have hfields : globalDesired found = [("enable_nfs", .bool enable), ("enable_nfs_v4", .bool v4),
      ("nfs_v4_domain", .str domain)] := by
    rw [globalDesired, h₁, h₂, h₃]
    simp only [flagField, pyBool_shown]
    rfl
  have hdesired : nfsDesired (.dict n) = .ok [("enable_nfs", .bool enable),
      ("enable_nfs_v4", .bool v4), ("nfs_v4_domain", .str domain)] := by
    simp only [nfsDesired, Value.get, ok_bind, henable, hv4, hdomain, truthy_bool]
    rfl
  refine judged_iff.mp ?_
  have hdetector : ∀ w, Detector.Nfs rt env w ↔ .ok w = nfsDesired (.dict n) := by
    intro w
    constructor
    · rintro ⟨-, spec', hspec', hw⟩
      obtain rfl := loads_unique hspec.1 hspec'.1
      rw [← hw, hmember]
    · intro hw
      exact ⟨hread, spec, hspec, hmember ▸ hw.symm⟩
  have hhelper : ∀ w, Helper.Nfs t env w ↔ w = globalDesired found := by
    intro w
    constructor
    · rintro ⟨spec', found', hload', hfound', hw⟩
      obtain rfl := loads_unique hspec.1 hload'
      obtain rfl := Option.some.inj (hfound.symm.trans hfound')
      exact hw
    · exact fun hw => ⟨spec, found, hspec.1, hfound, hw⟩
  simp only [hdetector, hhelper, hdesired, hfields, Except.ok.injEq, exists_eq_left]
  -- what DSM has needs no coercion
  have hflag : ∀ name ∈ ["enable_nfs", "enable_nfs_v4"], ∀ b,
      coerceLike rt (.bool b) (memberOr data name .null) = memberOr data name .null := by
    intro name hname b
    rw [memberOr]
    cases hvalue : member data name with
    | none => exact coerceLike_null _
    | some value =>
      obtain ⟨c, rfl⟩ := hlive name hname value hvalue
      exact coerceLike_flag b c
  have htext : coerceLike rt (.str domain) (memberOr data "nfs_v4_domain" .null) =
      memberOr data "nfs_v4_domain" .null := by
    rw [memberOr]
    cases hvalue : member data "nfs_v4_domain" with
    | none => exact coerceLike_null _
    | some value =>
      obtain ⟨s, rfl⟩ := hliveDomain value hvalue
      exact coerceLike_text domain s
  rw [Off, OffLike, hdata]
  refine exists_congr fun data' => and_congr_right fun hdata' => ?_
  obtain rfl := Value.dict.inj hdata'
  refine exists_congr fun field => and_congr_right fun hfield => ?_
  simp only [List.mem_cons, List.not_mem_nil, or_false] at hfield
  obtain rfl | rfl | rfl := hfield
  · rw [hflag "enable_nfs" (by simp)]
  · rw [hflag "enable_nfs_v4" (by simp)]
  · rw [htext]

/-- A list that is one is gone through by both sides. -/
theorem entries_of_list {spec : List (Value × Value)} {name : String} {items : List Value}
    (h : memberOr spec name (.list []) = .list items) :
    entries spec name = items ∧ looped spec name = items := by
  rw [entries, looped, h]
  exact ⟨rfl, rfl⟩

theorem rules_alike {share : String} (hread : Readable rt env)
    (hplain : Plain rt env dsm (.rules share)) : Alike t env dsm (.rules share) := by
  obtain ⟨hquotable, spec, exports, hspec, hexports, hcarried⟩ := hplain
  obtain ⟨hentries, hlooped⟩ := entries_of_list hexports
  have hsame : ∀ w, Detector.Rules rt env share w ↔ Helper.Rules t env share w := by
    intro w
    constructor
    · rintro ⟨-, spec', members, hspec', hmem, hshare, hw⟩
      obtain rfl := loads_unique hspec.1 hspec'.1
      rw [hentries] at hmem
      have hrules := (hcarried members _ hmem hshare (t.str_text share)).2
      exact ⟨spec', members, .str share, _, hspec.1, hlooped ▸ hmem, hshare, t.str_text share,
        t.document_carried share _ hquotable hrules, hw⟩
    · rintro ⟨spec', members, value, desired, hload', hmem, hvalue, hshare, hdocument, hw⟩
      obtain rfl := loads_unique hspec.1 hload'
      rw [hlooped] at hmem
      obtain ⟨rfl, hrules⟩ := hcarried members value hmem hvalue hshare
      obtain rfl := Option.some.inj
        (hdocument.symm.trans (t.document_carried share _ hquotable hrules))
      exact ⟨hread, spec', members, hspec, hentries ▸ hmem, hvalue, hw⟩
  exact judged_iff.mp (exists_congr fun w => and_congr_left fun _ => hsame w)

/-- Where there is a report, the names that are granted can be sorted. -/
theorem comparable_of_readable (hseen : Seen rt env dsm) {share : String}
    {granted : List (Tier × Key × Value)} (h : Detector.Acls rt env share granted) :
    ∀ tier, Comparable ((tierSet tier granted).map Prod.snd) := by
  obtain ⟨snap, captured, live, hsnap, hcaptured, hlive, -⟩ := hseen.acls
  obtain ⟨hread, spec, members, value, hspec, hmem, hvalue, -, hgranted⟩ := h
  obtain ⟨drifts, -, hdrifts⟩ :=
    acls_compared hcaptured hlive hread (hseen.present acls (by simp)) hsnap hspec
  obtain ⟨found, -, hdiff⟩ := exists_of_mapM hdrifts hmem
  simp only [diffEntry, bind_eq_ok_iff, item_eq_ok, get_eq_ok_iff] at hdiff
  obtain ⟨share', -, _, ⟨_, hm, rfl⟩, granted', hgranted', key, -, tiers, htiers, -⟩ := hdiff
  obtain rfl := Value.dict.inj hm
  obtain rfl := Except.ok.inj (hgranted.symm.trans hgranted')
  obtain ⟨items, -, hall⟩ := desired_tiers_eq_ok_iff.mp hgranted
  intro tier
  obtain ⟨l, -, hl⟩ := exists_of_mapM htiers (ShareAcls.mem_tiers tier)
  exact (typed_diffTier (hash_of_granted hall)).ok_iff.mp ⟨l, hl⟩

theorem acls_alike (hseen : Seen rt env dsm) {share : String} (hread : Readable rt env)
    (hplain : Plain rt env dsm (.acls share)) : Alike t env dsm (.acls share) := by
  obtain ⟨hquotable, spec, items, hspec, hitems, hcarried⟩ := hplain
  obtain ⟨hentries, hlooped⟩ := entries_of_list hitems
  have hsame : ∀ w, Detector.Acls rt env share w ↔ Helper.Acls t env share w := by
    intro w
    constructor
    · intro hw
      have hcomparable := comparable_of_readable hseen hw
      obtain ⟨-, spec', members, value, hspec', hmem, hvalue, hshare, hgranted⟩ := hw
      obtain rfl := loads_unique hspec.1 hspec'.1
      rw [hentries] at hmem
      obtain ⟨rfl, hgrants⟩ := hcarried members value hmem hvalue hshare
      exact ⟨spec', members, .str share, _, hspec.1, hlooped ▸ hmem, hvalue, hshare,
        t.document_carried share _ hquotable hgrants, (setuserDesired_iff t).mpr hgranted,
        hcomparable⟩
    · rintro ⟨spec', members, value, grants, hload', hmem, hvalue, hshare, hdocument, hgranted, -⟩
      obtain rfl := loads_unique hspec.1 hload'
      rw [hlooped] at hmem
      obtain ⟨rfl, hgrants⟩ := hcarried members value hmem hvalue hshare
      obtain rfl := Option.some.inj
        (hdocument.symm.trans (t.document_carried share _ hquotable hgrants))
      exact ⟨hread, spec', members, _, hspec, hentries ▸ hmem, hvalue, hshare,
        (setuserDesired_iff t).mp hgranted⟩
  exact judged_iff.mp (exists_congr fun w => and_congr_left fun _ => hsame w)

/-- Sections that are written as meant are judged alike, whatever DSM has. -/
theorem alike_of_plain (hseen : Seen rt env dsm) (hread : Readable rt env) {x : Section}
    (hplain : Plain rt env dsm x) : Alike t env dsm x := by
  cases x with
  | smb => exact smb_alike hread hplain
  | nfs => exact nfs_alike hread hplain
  | rules share => exact rules_alike hread hplain
  | acls share => exact acls_alike hseen hread hplain

/-- The answer of a DSM that has SMB off. -/
def offText : String :=
  "\x7b" ++ "\"data\": \x7b\"enable_samba\": false, \"smb_min_protocol\": 2, " ++
    "\"smb_max_protocol\": 3, \"enable_server_signing\": 1, \"enable_ntlmv1_auth\": false\x7d\x7d"

def offData : Value :=
  .dict [(.str "enable_samba", .bool false), (.str "smb_min_protocol", .int 2),
    (.str "smb_max_protocol", .int 3), (.str "enable_server_signing", .int 1),
    (.str "enable_ntlmv1_auth", .bool false)]

/-- An interpreter, as far as it reads that answer and writes texts. -/
def offRuntime : Runtime where
  loads s := if s = offText then .ok (.dict [(.str "data", offData)]) else .error (.valueError s)
  str
    | .str s => s
    | _ => ""
  repr
    | .str s => "'" ++ s ++ "'"
    | _ => ""
  hashes_slices := false

/-- Flags and texts reach a helper as they are shown. -/
def shownTransport : Transport offRuntime where
  arguments args := some fun option =>
    ((args.map fun a => (a.option, shown a.value)).lookup option).getD none
  document _ value := some value
  arguments_plain args hnodup _ := by
    refine ⟨_, rfl, fun a ha => ?_⟩
    have hkeys : (Dict.keys (args.map fun a => (a.option, shown a.value))).Nodup := by
      rwa [Dict.keys, List.map_map]
    rw [Dict.lookup_of_mem hkeys (List.mem_map.mpr ⟨a, ha, rfl⟩), Option.getD_some]
  document_carried _ _ _ _ := rfl
  str_text _ := rfl

/-- What is in every snapshot. -/
def offSnap : List (Value × Value) :=
  [(.str "smb_raw", .list [.str offText]), (.str "nfs_global_raw", .list [.str offText])]

/-- `smb: {enable: ...}`, no other spec, and the snapshots of that DSM. -/
def smbFiles (enable : Value) : Env where
  spec_dir := "spec/e4e-nas"
  snapshot_dir := "synology-export"
  host := "e4e-nas"
  safe_load path := .ok (
    if path = "spec/e4e-nas/smb-globals.yml" then .dict [(.str "smb", .dict [(.str "enable", enable)])]
    else if path ∈ ["spec/e4e-nas/shares.yml", "spec/e4e-nas/nfs-exports.yml",
      "spec/e4e-nas/acls.yml"] then .null
    else .dict offSnap)
  present _ := true

def offDsm : Dsm where
  smb := offData
  nfs := offData
  rules _ := .list []
  list_acl _ := ""

theorem smbFiles_loads (enable : Value) :
    Loads (smbFiles enable) smb [(.str "smb", .dict [(.str "enable", enable)])] := by
  have hpath : pathJoin "spec/e4e-nas" "smb-globals.yml" = "spec/e4e-nas/smb-globals.yml" := by
    decide +kernel
  show _load_yaml (smbFiles enable) (pathJoin "spec/e4e-nas" "smb-globals.yml") = _
  rw [hpath]
  rfl

/-- The other specs have nothing in them. -/
theorem smbFiles_empty (enable : Value) {r : Resource} (hr : r ∈ [shares, nfs, acls]) :
    Loads (smbFiles enable) r [] := by
  have hfiles : ∀ r ∈ [shares, nfs, acls], pathJoin "spec/e4e-nas" r.spec_file ≠
      "spec/e4e-nas/smb-globals.yml" ∧ pathJoin "spec/e4e-nas" r.spec_file ∈
      ["spec/e4e-nas/shares.yml", "spec/e4e-nas/nfs-exports.yml", "spec/e4e-nas/acls.yml"] := by
    intro r hr
    simp only [List.mem_cons, List.not_mem_nil, or_false] at hr
    obtain rfl | rfl | rfl := hr <;> decide +kernel
  obtain ⟨hsmb, hempty⟩ := hfiles r hr
  show _load_yaml (smbFiles enable) (pathJoin "spec/e4e-nas" r.spec_file) = _
  simp only [_load_yaml, smbFiles, if_neg hsmb, if_pos hempty]
  rfl

theorem smbFiles_snap (enable : Value) {r : Resource} (hr : r ∈ [smb, nfs, acls]) :
    _load_yaml (smbFiles enable) ((smbFiles enable).snap_path r) = .ok (.dict offSnap) := by
  have hfiles : ∀ r ∈ [smb, nfs, acls],
      pathJoin "synology-export" ("e4e-nas" ++ "-" ++ r.suffix ++ ".yml") ∉
      ["spec/e4e-nas/smb-globals.yml", "spec/e4e-nas/shares.yml", "spec/e4e-nas/nfs-exports.yml",
        "spec/e4e-nas/acls.yml"] := by
    intro r hr
    simp only [List.mem_cons, List.not_mem_nil, or_false] at hr
    obtain rfl | rfl | rfl := hr <;> decide +kernel
  have hsmb := List.ne_of_not_mem_cons (hfiles r hr)
  have hother := List.not_mem_of_not_mem_cons (hfiles r hr)
  simp only [_load_yaml, Env.snap_path, smbFiles, if_neg hsmb, if_neg hother]
  rfl

theorem braced_offText : braced offText = true := by
  have hbrace : "\x7b".toList = ['{'] := rfl
  have hspace : Python.isspace '{' = false := by decide
  rw [braced, CommandOutput.startsWithBrace, offText, String.append_assoc, String.toList_append, hbrace,
    List.cons_append, List.dropWhile_cons, hspace]
  rfl

theorem webapi_data_offText : webapi_data offRuntime (.list [.str offText]) = .ok offData := by
  have hloads : offRuntime.loads offText = .ok (.dict [(.str "data", offData)]) := by
    simp only [offRuntime, if_true]
  exact webapi_data_eq_ok_iff.mpr ⟨offText, _, captured_line braced_offText, hloads, rfl⟩

theorem smbFiles_seen (enable : Value) : Seen offRuntime (smbFiles enable) offDsm where
  present _ _ := rfl
  smb := ⟨offSnap, smbFiles_snap enable (by simp), webapi_data_offText⟩
  nfs := by
    refine ⟨offSnap, [], [], smbFiles_snap enable (by simp), webapi_data_offText, rfl, rfl, ?_⟩
    intro spec hspec exp hexp
    obtain rfl := loads_unique (smbFiles_empty enable (by simp)) hspec
    cases hexp
  acls := by
    refine ⟨offSnap, [], [], smbFiles_snap enable (by simp), rfl, rfl, ?_⟩
    intro spec hspec entry hentry
    obtain rfl := loads_unique (smbFiles_empty enable (by simp)) hspec
    cases hentry

/-- What the detector wants of that spec. -/
def offDesired (enable : Value) : List (String × Value) :=
  [("enable_samba", .bool enable.truthy), ("smb_min_protocol", .int 2),
    ("smb_max_protocol", .int 3), ("enable_server_signing", .int 1),
    ("enable_ntlmv1_auth", .bool false)]

theorem smbFiles_readable (enable : Value) : Readable offRuntime (smbFiles enable) := by
  rw [← run_returns_iff_readable, run_returns_iff]
  have hempty : ∀ r ∈ [shares, nfs, acls], r.has_work (.dict []) = .ok false := by
    simp only [List.forall_mem_cons, List.not_mem_nil, false_imp_iff, implies_true, and_true]
    exact ⟨rfl, rfl, rfl⟩
  intro r hr
  obtain rfl | hother : r = smb ∨ r ∈ [shares, nfs, acls] := by
    simp only [RESOURCES, List.mem_cons] at hr ⊢
    tauto
  · obtain ⟨found, hfound⟩ : ∃ found, fieldDrift "smb" "" offData (offDesired enable) = .ok found :=
      ⟨_, (fieldDrift_eq_ok (List.cons_ne_nil _ _)).mpr ⟨_, rfl, rfl⟩⟩
    have hlive : webapi_data offRuntime (memberOr offSnap "smb_raw" (.list [])) = .ok offData :=
      webapi_data_offText
    have hdiff : diff_smb offRuntime (.dict [(.str "smb", .dict [(.str "enable", enable)])])
        (.dict offSnap) = .ok found :=
      (diff_smb_eq_ok hlive).mpr ⟨offDesired enable, rfl, hfound⟩
    have hload : _load_yaml (smbFiles enable) ((smbFiles enable).spec_path smb) =
        .ok (.dict [(.str "smb", .dict [(.str "enable", enable)])]) := smbFiles_loads enable
    refine check_returns_iff.mpr ⟨hload ▸ handled_ok _, fun spec hspec => ?_⟩
    obtain rfl := Except.ok.inj (hload.symm.trans hspec)
    refine ⟨⟨true, rfl⟩, fun _ _ => ?_⟩
    rw [DriftReport.compare, smbFiles_snap enable (by simp), ok_bind]
    show Handled _ (diff_smb _ _ _)
    rw [hdiff]
    exact handled_ok found
  · refine ⟨("ok", []), ?_⟩
    have hload : _load_yaml (smbFiles enable) ((smbFiles enable).spec_path r) = .ok (.dict []) :=
      smbFiles_empty enable hother
    rw [check, hload]
    show (r.has_work (.dict []) >>= _) = _
    rw [hempty r hother]
    rfl

end DriftAgreement
