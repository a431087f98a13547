/-
When the drift report isolates errors.

There is a report if the spec of each resource is a mapping, or fails to load in one of two ways,
and what is compared with it is of types that the check can use; every report isolates errors.

* `ResourceFit`, `check_returns_iff_fit` — the files of a resource;
* `Readable`, `isolates_iff_readable` — the files of all of them;
* `list_not_isolated` — a spec that is a list.
-/
import KrgInfra.DriftGrants
import KrgInfra.DriftIsolation

namespace DriftReport

open PyObject Raising
open PyObject.Value (member memberOr)

variable {rt : Runtime}

/-- The spec has something in a section. -/
def Declares (name : String) (spec : List (Value × Value)) : Prop :=
  (memberOr spec name .null).truthy = true

theorem typed_hasSection (name : String) (sp : Value) :
    Typed (hasSection name sp) (∃ members, sp = .dict members) :=
  (typed_get sp name .null).map _

theorem hasSection_dict {name : String} {spec : List (Value × Value)} :
    hasSection name (.dict spec) = .ok true ↔ Declares name spec :=
  ⟨fun h => Except.ok.inj h, fun h => congrArg Except.ok h⟩

theorem nfs_has_work_returns_iff {sp : Value} :
    (∃ work, nfs.has_work sp = .ok work) ↔ ∃ members, sp = .dict members := by
  constructor
  · rintro ⟨work, h⟩
    obtain ⟨found, hfound, -⟩ := bind_eq_ok_iff.mp h
    exact (typed_hasSection "nfs" sp).ok_iff.mp ⟨found, hfound⟩
  · rintro ⟨members, rfl⟩
    show ∃ work, (if (memberOr members "nfs" .null).truthy = true then pure true
      else hasSection "exports" (.dict members)) = Except.ok work
    split_ifs
    · exact ⟨_, rfl⟩
    · exact ⟨_, rfl⟩

theorem nfs_has_work_dict {spec : List (Value × Value)} :
    nfs.has_work (.dict spec) = .ok true ↔ Declares "nfs" spec ∨ Declares "exports" spec := by
  show (if (memberOr spec "nfs" .null).truthy = true then pure true
    else hasSection "exports" (.dict spec)) = .ok true ↔ _
  by_cases h : (memberOr spec "nfs" .null).truthy = true
  · rw [if_pos h]
    exact ⟨fun _ => .inl h, fun _ => rfl⟩
  · rw [if_neg h, hasSection_dict]
    exact ⟨.inr, fun h' => h'.resolve_left h⟩

/-- The files of a resource: a spec that is a mapping, or that fails to load in a way that is
caught, and, if there is something in it and a snapshot, a snapshot that fits, or fails to load. -/
def ResourceFit (env : Env) (r : Resource) (work : List (Value × Value) → Prop)
    (fit : List (Value × Value) → Value → Prop) : Prop :=
  (∀ e, env.safe_load (env.spec_path r) = .error e → specError e ≠ none) ∧
    ∀ spec, _load_yaml env (env.spec_path r) = .ok spec → ∃ members, spec = .dict members ∧
      (work members → env.present (env.snap_path r) = true →
        (∀ e, env.safe_load (env.snap_path r) = .error e → Caught e) ∧
          ∀ snap, _load_yaml env (env.snap_path r) = .ok snap → fit members snap)

theorem check_returns_iff_fit {env : Env} {r : Resource} {work : List (Value × Value) → Prop}
    {fit : List (Value × Value) → Value → Prop}
    (hreturns : ∀ sp, (∃ found, r.has_work sp = .ok found) ↔ ∃ members, sp = .dict members)
    (hwork : ∀ spec, r.has_work (.dict spec) = .ok true ↔ work spec)
    (hdiff : ∀ spec snap, Handled Caught (r.diff_fn rt (.dict spec) snap) ↔ fit spec snap) :
    (∃ out, check rt env r = .ok out) ↔ ResourceFit env r work fit := by
  have hload : ∀ {p : Exn → Prop} {path : String},
      Handled p (_load_yaml env path) ↔ Handled p (env.safe_load path) := handled_map
  have hcompare : ∀ spec : List (Value × Value), Handled Caught (compare rt env r (.dict spec)) ↔
      Handled Caught (env.safe_load (env.snap_path r)) ∧
        ∀ snap, _load_yaml env (env.snap_path r) = .ok snap → fit spec snap := by
    intro spec
    rw [compare, handled_bind, hload]
    simp only [hdiff]
  rw [check_returns_iff, hload]
  refine and_congr_right fun _ => forall_congr' fun spec => imp_congr_right fun _ => ?_
  rw [hreturns]
  constructor
  · rintro ⟨⟨members, rfl⟩, h⟩
    exact ⟨members, rfl, fun hw hsnap => (hcompare members).mp (h ((hwork members).mpr hw) hsnap)⟩
  · rintro ⟨members, rfl, h⟩
    exact ⟨⟨members, rfl⟩, fun hw hsnap => (hcompare members).mpr (h ((hwork members).mp hw) hsnap)⟩

/-- The files of all resources. -/
structure Readable (rt : Runtime) (env : Env) : Prop where
  shares : ResourceFit env shares (Declares "shares") SharesFit
  smb : ResourceFit env smb (Declares "smb") (SmbFit rt)
  nfs : ResourceFit env nfs (fun spec => Declares "nfs" spec ∨ Declares "exports" spec) (NfsFit rt)
  acls : ResourceFit env acls (Declares "acls") (AclsFit rt)

variable (rt) in
/-- There is a report where the files are readable. -/
theorem run_returns_iff_readable (env : Env) : (∃ report, run rt env = .ok report) ↔
    Readable rt env := by
  have hshares : (∃ out, check rt env shares = .ok out) ↔ _ :=
    check_returns_iff_fit (fun sp => (typed_hasSection "shares" sp).ok_iff)
      (fun _ => hasSection_dict) fun _ _ => handled_diff_shares
  have hsmb : (∃ out, check rt env smb = .ok out) ↔ _ :=
    check_returns_iff_fit (fun sp => (typed_hasSection "smb" sp).ok_iff)
      (fun _ => hasSection_dict) fun _ _ => handled_diff_smb
  have hnfs : (∃ out, check rt env nfs = .ok out) ↔ _ :=
    check_returns_iff_fit (fun _ => nfs_has_work_returns_iff) (fun _ => nfs_has_work_dict)
      fun _ _ => handled_diff_nfs
  have hacls : (∃ out, check rt env acls = .ok out) ↔ _ :=
    check_returns_iff_fit (fun sp => (typed_hasSection "acls" sp).ok_iff)
      (fun _ => hasSection_dict) fun _ _ => handled_diff_acls
  rw [run_returns_iff]
  simp only [RESOURCES, List.forall_mem_cons, hshares, hsmb, hnfs, hacls]
  constructor
  · rintro ⟨h₁, h₂, h₃, h₄, -⟩
    exact ⟨h₁, h₂, h₃, h₄⟩
  · rintro ⟨h₁, h₂, h₃, h₄⟩
    exact ⟨h₁, h₂, h₃, h₄, fun _ h => absurd h List.not_mem_nil⟩

/-- **Errors of a resource stay with it exactly where the files are readable.** -/
theorem isolates_iff_readable (rt : Runtime) (env : Env) :
    (∃ results drifts, run rt env = .ok (results, drifts) ∧ Isolates rt env results drifts) ↔
      Readable rt env := by
  rw [← run_returns_iff_readable]
  constructor
  · rintro ⟨results, drifts, h, -⟩
    exact ⟨_, h⟩
  · rintro ⟨⟨results, drifts⟩, h⟩
    exact ⟨results, drifts, h, isolates_of_run h⟩

/-- `shares.yml` is a list of one number; the other files are empty. -/
def listSpec : Env where
  spec_dir := "spec/e4e-nas"
  snapshot_dir := "synology-export"
  host := "e4e-nas"
  safe_load path := .ok (if path = "spec/e4e-nas/shares.yml" then .list [.int 1] else .null)
  present _ := true

/-- All files parse, and there is no report. -/
theorem list_not_isolated : (∀ path, ∃ value, listSpec.safe_load path = .ok value) ∧
    ¬ ∃ rt results drifts, run rt listSpec = .ok (results, drifts) := by
  refine ⟨fun path => ⟨_, rfl⟩, ?_⟩
  rintro ⟨rt, results, drifts, h⟩
  obtain ⟨out, hout⟩ := run_returns_iff.mp ⟨_, h⟩ shares (by simp [RESOURCES])
  have hpath : listSpec.spec_path shares = "spec/e4e-nas/shares.yml" := by decide +kernel
  have hspec : _load_yaml listSpec (listSpec.spec_path shares) = .ok (.list [.int 1]) := by
    rw [hpath]
    rfl
  obtain ⟨work, hwork⟩ := ((check_returns_iff.mp ⟨out, hout⟩).2 _ hspec).1
  cases hwork

end DriftReport
