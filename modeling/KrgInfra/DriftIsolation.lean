/-
Errors of one resource in the drift report.

A report has one result of each resource: an error entry, where something that is caught goes wrong
with it.  No resource has a part in the result of another one.  What is not caught ends the run,
and then there is no report at all.

* `Checked`, `check_returns_iff` — what becomes of a resource, and when it has a result;
* `paths_ne` — no resource has a file of another one;
* `run_returns_iff`, `part_of_forall₂` — the report, of the checks of the resources;
* `Isolates`, `isolates_of_run` — every report isolates errors.
-/
import KrgInfra.DriftReport

namespace DriftReport

open PyObject Raising
open ShareAcls (Tier)

/-! ### One resource -/

variable {rt : Runtime} {env env' : Env} {r q : Resource}

theorem catching_returns_iff {α : Type} {caught : Exn → Option String} {start : String}
    {x : Except Exn α} :
    (∃ y, catching caught start x = .ok y) ↔ Handled (fun e => caught e ≠ none) x := by
  cases x with
  | ok a => exact ⟨fun _ => handled_ok a, fun _ => ⟨.inr a, rfl⟩⟩
  | error e =>
    rw [handled_error, catching]
    cases caught e with
    | none => exact ⟨fun ⟨_, h⟩ => (nomatch h), fun h => absurd rfl h⟩
    | some message => exact ⟨fun _ => nofun, fun _ => ⟨.inl (start ++ message), rfl⟩⟩

theorem catching_eq_inr_iff {α : Type} {caught : Exn → Option String} {start : String}
    {x : Except Exn α} {a : α} : catching caught start x = .ok (.inr a) ↔ x = .ok a := by
  cases x with
  | ok b => simp [catching]
  | error e =>
    rw [catching]
    cases caught e <;> simp

theorem catching_eq_inl {α : Type} {caught : Exn → Option String} {start text : String}
    {x : Except Exn α} (h : catching caught start x = .ok (.inl text)) :
    ∃ e message, x = .error e ∧ text = start ++ message := by
  cases x with
  | ok b => exact nomatch h
  | error e =>
    rw [catching] at h
    cases hmessage : caught e with
    | none => rw [hmessage] at h; exact nomatch h
    | some message =>
      rw [hmessage] at h
      exact ⟨e, message, rfl, (Sum.inl.inj (Except.ok.inj h)).symm⟩

/-- Something goes wrong with a resource. -/
def Fails (rt : Runtime) (env : Env) (r : Resource) : Prop :=
  (∃ e, _load_yaml env (env.spec_path r) = .error e) ∨
  ∃ spec, _load_yaml env (env.spec_path r) = .ok spec ∧
    ((∃ e, r.has_work spec = .error e) ∨
      r.has_work spec = .ok true ∧ env.present (env.snap_path r) = true ∧
        ∃ e, compare rt env r spec = .error e)

/-- What becomes of a resource: an error of its spec, nothing to check, no snapshot, an error of
the comparison, or its outcome. -/
inductive Checked (rt : Runtime) (env : Env) (r : Resource) : String × List D → Prop
  | spec {e : Exn} {message : String} (h : _load_yaml env (env.spec_path r) = .error e) :
    Checked rt env r ("error: spec " ++ message, [])
  | idle {spec : Value} (h : _load_yaml env (env.spec_path r) = .ok spec)
    (hwork : r.has_work spec = .ok false) : Checked rt env r ("ok", [])
  | noSnapshot {spec : Value} (h : _load_yaml env (env.spec_path r) = .ok spec)
    (hwork : r.has_work spec = .ok true) (hsnap : env.present (env.snap_path r) = false) :
    Checked rt env r ("no-snapshot", [])
  | diff {spec : Value} {e : Exn} {message : String}
    (h : _load_yaml env (env.spec_path r) = .ok spec) (hwork : r.has_work spec = .ok true)
    (hsnap : env.present (env.snap_path r) = true) (hdiff : compare rt env r spec = .error e) :
    Checked rt env r ("error: " ++ message, [])
  | compared {spec : Value} {found : List D} (h : _load_yaml env (env.spec_path r) = .ok spec)
    (hwork : r.has_work spec = .ok true) (hsnap : env.present (env.snap_path r) = true)
    (hdiff : compare rt env r spec = .ok found) :
    Checked rt env r (if found.isEmpty then "ok" else "drift", found)

theorem checked_of_check {out : String × List D} (h : check rt env r = .ok out) :
    Checked rt env r out := by
  rw [check] at h
  obtain ⟨loaded, hload, h⟩ := bind_eq_ok_iff.mp h
  cases loaded with
  | inl text =>
    obtain ⟨e, message, he, rfl⟩ := catching_eq_inl hload
    rw [← Except.ok.inj h]
    exact .spec he
  | inr spec =>
    have hspec := catching_eq_inr_iff.mp hload
    obtain ⟨work, hwork, h⟩ := bind_eq_ok_iff.mp h
    split_ifs at h with hidle hsnap
    · rw [← Except.ok.inj h]
      exact .idle hspec (hidle ▸ hwork)
    · rw [← Except.ok.inj h]
      rw [Bool.not_eq_false] at hidle
      exact .noSnapshot hspec (hidle ▸ hwork) hsnap
    · rw [Bool.not_eq_false] at hidle hsnap
      obtain ⟨outcome, hdiff, h⟩ := bind_eq_ok_iff.mp h
      cases outcome with
      | inl text =>
        obtain ⟨e, message, he, rfl⟩ := catching_eq_inl hdiff
        rw [← Except.ok.inj h]
        exact .diff hspec (hidle ▸ hwork) hsnap he
      | inr found =>
        rw [← Except.ok.inj h]
        exact .compared hspec (hidle ▸ hwork) hsnap (catching_eq_inr_iff.mp hdiff)

/-- A resource has a result if only what is caught is raised. -/
theorem check_returns_iff : (∃ out, check rt env r = .ok out) ↔
    Handled (fun e => specError e ≠ none) (_load_yaml env (env.spec_path r)) ∧
      ∀ spec, _load_yaml env (env.spec_path r) = .ok spec →
        (∃ work, r.has_work spec = .ok work) ∧
        (r.has_work spec = .ok true → env.present (env.snap_path r) = true →
          Handled (fun e => diffError e ≠ none) (compare rt env r spec)) := by
  constructor
  · rintro ⟨out, h⟩
    rw [check] at h
    obtain ⟨loaded, hload, h⟩ := bind_eq_ok_iff.mp h
    refine ⟨catching_returns_iff.mp ⟨loaded, hload⟩, fun spec hspec => ?_⟩
    obtain rfl := Except.ok.inj (hload.symm.trans (catching_eq_inr_iff.mpr hspec))
    obtain ⟨work, hwork, h⟩ := bind_eq_ok_iff.mp h
    refine ⟨⟨work, hwork⟩, fun htrue hsnap => ?_⟩
    obtain rfl := Except.ok.inj (hwork.symm.trans htrue)
    rw [if_neg (by decide), if_neg (by rw [hsnap]; decide)] at h
    obtain ⟨outcome, hdiff, -⟩ := bind_eq_ok_iff.mp h
    exact catching_returns_iff.mp ⟨outcome, hdiff⟩
  · rintro ⟨hload, hrest⟩
    rw [check]
    obtain ⟨loaded, hloaded⟩ := catching_returns_iff.mpr hload
    rw [hloaded, ok_bind]
    cases loaded with
    | inl text => exact ⟨_, rfl⟩
    | inr spec =>
      obtain ⟨⟨work, hwork⟩, hdiff⟩ := hrest spec (catching_eq_inr_iff.mp hloaded)
      show ∃ out, (r.has_work spec >>= _) = .ok out
      rw [hwork, ok_bind]
      split_ifs with hidle hsnap
      · exact ⟨_, rfl⟩
      · exact ⟨_, rfl⟩
      · rw [Bool.not_eq_false] at hidle hsnap
        obtain ⟨outcome, houtcome⟩ := catching_returns_iff.mpr (hdiff (hidle ▸ hwork) hsnap)
        rw [houtcome, ok_bind]
        cases outcome with
        | inl text => exact ⟨_, rfl⟩
        | inr found => exact ⟨_, rfl⟩

/-! ### Differences of a resource -/

theorem resource_fieldDrift {resource start : String} {live : Value}
    {desired : List (String × Value)} {found : List D}
    (h : fieldDrift resource start live desired = .ok found) : ∀ d ∈ found, d.resource = resource := by
  obtain ⟨values, -, h⟩ := bind_eq_ok_iff.mp h
  rw [← Except.ok.inj h]
  intro d hd
  obtain ⟨f, -, rfl⟩ := List.mem_map.mp hd
  rfl

/-- A loop over entries, each of which has differences of one resource. -/
theorem resource_flatten {α : Type} {f : α → Except Exn (List D)} {resource : String}
    (hf : ∀ a found, f a = .ok found → ∀ d ∈ found, d.resource = resource) {l : List α}
    {founds : List (List D)} (h : l.mapM f = .ok founds) :
    ∀ d ∈ founds.flatten, d.resource = resource := by
  intro d hd
  obtain ⟨found, hfound, hd⟩ := List.mem_flatten.mp hd
  obtain ⟨a, -, ha⟩ := exists_of_mem_mapM h hfound
  exact hf a found ha d hd

theorem resource_diff_shares {spec snap : Value} {found : List D}
    (h : diff_shares rt spec snap = .ok found) : ∀ d ∈ found, d.resource = "shares" := by
  simp only [diff_shares, diffNames, bind_eq_ok_iff] at h
  obtain ⟨_, -, _, -, _, -, _, -, _, -, missing, -, extra, -, h⟩ := h
  rw [← Except.ok.inj h]
  intro d hd
  obtain hd | hd := List.mem_append.mp hd
  · obtain ⟨n, -, rfl⟩ := List.mem_map.mp hd
    rfl
  · obtain ⟨n, -, rfl⟩ := List.mem_map.mp hd
    rfl

theorem resource_diff_smb {spec snap : Value} {found : List D}
    (h : diff_smb rt spec snap = .ok found) : ∀ d ∈ found, d.resource = "smb" := by
  simp only [diff_smb, bind_eq_ok_iff] at h
  obtain ⟨_, -, _, -, _, -, _, -, h⟩ := h
  exact resource_fieldDrift h

theorem resource_diffExport {live_rules : List (Key × Value)} {exp : Value} {found : List D}
    (h : diffExport rt live_rules exp = .ok found) : ∀ d ∈ found, d.resource = "nfs" := by
  simp only [diffExport, bind_eq_ok_iff] at h
  obtain ⟨_, -, _, -, _, -, _, -, _, -, h⟩ := h
  split_ifs at h
  · rw [← Except.ok.inj h]
    exact fun _ hd => nomatch hd
  · obtain ⟨_, -, h⟩ := bind_eq_ok_iff.mp h
    rw [← Except.ok.inj h]
    exact fun d hd => List.mem_singleton.mp hd ▸ rfl

theorem resource_diff_nfs {spec snap : Value} {found : List D}
    (h : diff_nfs rt spec snap = .ok found) : ∀ d ∈ found, d.resource = "nfs" := by
  simp only [diff_nfs, bind_eq_ok_iff] at h
  obtain ⟨_, -, _, -, _, -, _, -, globals, hglobals, _, -, _, -, _, -, _, -, _, -, drifts, hdrifts,
    h⟩ := h
  rw [← Except.ok.inj h]
  intro d hd
  obtain hd | hd := List.mem_append.mp hd
  · exact resource_fieldDrift hglobals d hd
  · exact resource_flatten (fun _ _ => resource_diffExport) hdrifts d hd

theorem resource_diffTier {share : Value} {granted : List (Tier × Key × Value)}
    {live : ShareAcls.Tiers} {t : Tier} {found : List D}
    (h : diffTier rt share granted live t = .ok found) : ∀ d ∈ found, d.resource = "acls" := by
  rw [diffTier] at h
  split_ifs at h
  · rw [← Except.ok.inj h]
    exact fun _ hd => nomatch hd
  · simp only [bind_eq_ok_iff] at h
    obtain ⟨_, -, _, -, h⟩ := h
    rw [← Except.ok.inj h]
    exact fun d hd => List.mem_singleton.mp hd ▸ rfl

theorem resource_diff_acls {spec snap : Value} {found : List D}
    (h : diff_acls rt spec snap = .ok found) : ∀ d ∈ found, d.resource = "acls" := by
  simp only [diff_acls, bind_eq_ok_iff] at h
  obtain ⟨_, -, _, -, _, -, _, -, _, -, drifts, hdrifts, h⟩ := h
  rw [← Except.ok.inj h]
  refine resource_flatten (fun entry found hentry => ?_) hdrifts
  simp only [diffEntry, bind_eq_ok_iff] at hentry
  obtain ⟨_, -, _, -, _, -, _, -, tiers, htiers, hentry⟩ := hentry
  rw [← Except.ok.inj hentry]
  exact resource_flatten (fun _ _ => resource_diffTier) htiers

/-- The differences of a resource carry its name. -/
theorem resource_of_check (hr : r ∈ RESOURCES) {out : String × List D}
    (h : check rt env r = .ok out) : ∀ d ∈ out.2, d.resource = r.name := by
  have hdiff : ∀ {spec snap : Value} {found : List D}, r.diff_fn rt spec snap = .ok found →
      ∀ d ∈ found, d.resource = r.name := by
    intro spec snap found
    rw [RESOURCES, List.mem_cons, List.mem_cons, List.mem_cons, List.mem_singleton] at hr
    obtain rfl | rfl | rfl | rfl := hr
    · exact resource_diff_shares
    · exact resource_diff_smb
    · exact resource_diff_nfs
    · exact resource_diff_acls
  cases checked_of_check h with
  | compared _ _ _ hcompare =>
    obtain ⟨_, -, hfound⟩ := bind_eq_ok_iff.mp hcompare
    exact hdiff hfound
  | _ => exact fun _ hd => nomatch hd

/-! ### Files -/

/-- The last characters of a path are those of the file. -/
theorem suffix_pathJoin (dir file : String) : file.toList <:+ (pathJoin dir file).toList := by
  unfold pathJoin
  split_ifs
  · exact List.suffix_refl _
  · rw [String.toList_append]
    exact List.suffix_append _ _
  · rw [String.toList_append]
    exact List.suffix_append _ _

theorem suffix_snap_path (env : Env) (r : Resource) :
    ("-" ++ r.suffix ++ ".yml").toList <:+ (env.snap_path r).toList := by
  refine List.IsSuffix.trans ?_ (suffix_pathJoin _ _)
  have hfile : (env.host ++ "-" ++ r.suffix ++ ".yml").toList =
      env.host.toList ++ ("-" ++ r.suffix ++ ".yml").toList := by
    rw [← String.toList_append]
    simp only [String.append_assoc]
  rw [hfile]
  exact List.suffix_append _ _

/-- Paths that end differently are different. -/
theorem ne_of_suffix {a b : List Char} {s t : String} (ha : a <:+ s.toList) (hb : b <:+ t.toList)
    (hab : ¬ a <:+ b ∧ ¬ b <:+ a) : s ≠ t := by
  rintro rfl
  obtain h | h := List.suffix_or_suffix_of_suffix ha hb
  · exact hab.1 h
  · exact hab.2 h

variable (env) in
/-- No resource has a file of another one. -/
theorem paths_ne (hr : r ∈ RESOURCES) (hq : q ∈ RESOURCES) (hne : q.name ≠ r.name) :
    (env.spec_path q ≠ env.spec_path r ∧ env.spec_path q ≠ env.snap_path r) ∧
      env.snap_path q ≠ env.spec_path r ∧ env.snap_path q ≠ env.snap_path r := by
  have hends : ∀ q ∈ RESOURCES, ∀ r ∈ RESOURCES, q.name ≠ r.name →
      ∀ a ∈ [q.spec_file.toList, ("-" ++ q.suffix ++ ".yml").toList],
        ∀ b ∈ [r.spec_file.toList, ("-" ++ r.suffix ++ ".yml").toList], ¬ a <:+ b ∧ ¬ b <:+ a := by
    decide +kernel
  have h := hends q hq r hr hne
  have hqspec := suffix_pathJoin env.spec_dir q.spec_file
  have hrspec := suffix_pathJoin env.spec_dir r.spec_file
  refine ⟨⟨ne_of_suffix hqspec hrspec (h _ ?_ _ ?_), ne_of_suffix hqspec
      (suffix_snap_path env r) (h _ ?_ _ ?_)⟩, ne_of_suffix (suffix_snap_path env q) hrspec
      (h _ ?_ _ ?_), ne_of_suffix (suffix_snap_path env q) (suffix_snap_path env r) (h _ ?_ _ ?_)⟩
  all_goals simp

/-! ### The whole report -/

/-- Two places that differ at most in the files of one resource. -/
structure SameBut (r : Resource) (env env' : Env) : Prop where
  spec_dir : env'.spec_dir = env.spec_dir
  snapshot_dir : env'.snapshot_dir = env.snapshot_dir
  host : env'.host = env.host
  safe_load : ∀ path, path ≠ env.spec_path r → path ≠ env.snap_path r →
    env'.safe_load path = env.safe_load path
  present : ∀ path, path ≠ env.spec_path r → path ≠ env.snap_path r →
    env'.present path = env.present path

/-- The other resources are checked in the same way. -/
theorem SameBut.check_eq (h : SameBut r env env') (hr : r ∈ RESOURCES) (hq : q ∈ RESOURCES)
    (hne : q.name ≠ r.name) : check rt env' q = check rt env q := by
  obtain ⟨⟨hss, hsn⟩, hns, hnn⟩ := paths_ne env hr hq hne
  have hspec : env'.spec_path q = env.spec_path q := by
    rw [Env.spec_path, Env.spec_path, h.spec_dir]
  have hsnap : env'.snap_path q = env.snap_path q := by
    rw [Env.snap_path, Env.snap_path, h.snapshot_dir, h.host]
  have hloadSpec : _load_yaml env' (env'.spec_path q) = _load_yaml env (env.spec_path q) := by
    rw [hspec, _load_yaml, _load_yaml, h.safe_load _ hss hsn]
  have hloadSnap : _load_yaml env' (env'.snap_path q) = _load_yaml env (env.snap_path q) := by
    rw [hsnap, _load_yaml, _load_yaml, h.safe_load _ hns hnn]
  unfold check compare
  rw [hloadSpec, hloadSnap, hsnap, h.present _ hns hnn]

/-- The report, of what the checks of the resources give. -/
theorem runFrom_eq_ok_iff {rs : List Resource} :
    ∀ {report out : List (String × String) × List D}, runFrom rt env rs report = .ok out ↔
      ∃ outs, List.Forall₂ (fun r o => check rt env r = .ok o) rs outs ∧
        out = (report.1 ++ List.zipWith (fun r o => (r.name, o.1)) rs outs,
          report.2 ++ (outs.map Prod.snd).flatten) := by
  induction rs with
  | nil =>
    intro report out
    rw [runFrom]
    simp [eq_comm]
  | cons r rs ih =>
    intro report out
    rw [runFrom, bind_eq_ok_iff]
    constructor
    · rintro ⟨o, ho, h⟩
      obtain ⟨outs, houts, rfl⟩ := ih.mp h
      exact ⟨o :: outs, .cons ho houts, by simp⟩
    · rintro ⟨_, hall, rfl⟩
      obtain ⟨o, outs, ho, houts, rfl⟩ := List.forall₂_cons_left_iff.mp hall
      exact ⟨o, ho, ih.mpr ⟨outs, houts, by simp⟩⟩

theorem run_returns_iff : (∃ report, run rt env = .ok report) ↔
    ∀ r ∈ RESOURCES, ∃ out, check rt env r = .ok out := by
  rw [← mapM_returns_iff]
  constructor
  · rintro ⟨report, h⟩
    obtain ⟨outs, houts, -⟩ := runFrom_eq_ok_iff.mp h
    exact ⟨outs, mapM_eq_ok_iff.mpr houts⟩
  · rintro ⟨outs, houts⟩
    exact ⟨_, runFrom_eq_ok_iff.mpr ⟨outs, mapM_eq_ok_iff.mp houts, rfl⟩⟩

theorem names_results {rs : List Resource} {outs : List (String × List D)}
    (h : List.Forall₂ (fun r o => check rt env r = .ok o) rs outs) :
    (List.zipWith (fun r o => (r.name, o.1)) rs outs).map Prod.fst = rs.map Resource.name := by
  induction h with
  | nil => rfl
  | cons _ _ ih => rw [List.zipWith_cons_cons, List.map_cons, List.map_cons, ih]

/-- The entry of a resource, and its differences, are those of its check. -/
theorem part_of_forall₂ {rs : List Resource} {outs : List (String × List D)}
    (h : List.Forall₂ (fun r o => check rt env r = .ok o) rs outs)
    (hrs : ∀ r ∈ rs, r ∈ RESOURCES) (hnames : (rs.map Resource.name).Nodup) (hr : r ∈ rs)
    {out : String × List D} (hout : check rt env r = .ok out) :
    (List.zipWith (fun r o => (r.name, o.1)) rs outs).lookup r.name = some out.1 ∧
      (outs.map Prod.snd).flatten.filter (fun d => d.resource = r.name) = out.2 := by
  have hother : ∀ {rs : List Resource} {outs : List (String × List D)},
      List.Forall₂ (fun r o => check rt env r = .ok o) rs outs → (∀ r ∈ rs, r ∈ RESOURCES) →
      r.name ∉ rs.map Resource.name →
      (outs.map Prod.snd).flatten.filter (fun d => d.resource = r.name) = [] := by
    intro rs outs h
    induction h with
    | nil => exact fun _ _ => rfl
    | @cons q o rs outs ho _ ih =>
      intro hrs hmem
      rw [List.map_cons, List.mem_cons, not_or] at hmem
      rw [List.map_cons, List.flatten_cons, List.filter_append,
        ih (fun r hr => hrs r (List.mem_cons_of_mem _ hr)) hmem.2, List.append_nil]
      refine List.filter_eq_nil_iff.mpr fun d hd => ?_
      rw [resource_of_check (hrs q List.mem_cons_self) ho d hd, decide_eq_true_eq]
      exact Ne.symm hmem.1
  induction h with
  | nil => exact nomatch hr
  | @cons q o rs outs ho hall ih =>
    obtain ⟨hq, hrs'⟩ := List.forall_mem_cons.mp hrs
    obtain ⟨hfirst, hnames'⟩ := List.nodup_cons.mp hnames
    rw [List.zipWith_cons_cons, List.map_cons, List.flatten_cons, List.filter_append,
      Dict.lookup_cons]
    obtain rfl | hr := List.mem_cons.mp hr
    · obtain rfl := Except.ok.inj (ho.symm.trans hout)
      rw [if_pos rfl, hother hall hrs' hfirst, List.append_nil]
      refine ⟨rfl, List.filter_eq_self.mpr fun d hd => ?_⟩
      exact decide_eq_true (resource_of_check hq ho d hd)
    · have hne : r.name ≠ q.name := fun he => hfirst (List.mem_map.mpr ⟨r, hr, he⟩)
      obtain ⟨hentry, hdrifts⟩ := ih hrs' hnames' hr
      have hnone : o.2.filter (fun d => d.resource = r.name) = [] := by
        refine List.filter_eq_nil_iff.mpr fun d hd => ?_
        rw [resource_of_check hq ho d hd, decide_eq_true_eq]
        exact Ne.symm hne
      rw [if_neg hne, hdrifts, hnone]
      exact ⟨hentry, rfl⟩

/-- Errors stay with their resources: there is one result of each resource, an error entry where
something goes wrong with it, and with other files of one resource, with which nothing goes wrong,
the results and the differences of the others are the same. -/
structure Isolates (rt : Runtime) (env : Env) (results : List (String × String))
    (drifts : List D) : Prop where
  one : results.map Prod.fst = RESOURCES.map Resource.name
  errors : ∀ r ∈ RESOURCES, Fails rt env r →
    ∃ message, results.lookup r.name = some ("error: " ++ message)
  others : ∀ r ∈ RESOURCES, ∀ env', SameBut r env env' → ¬ Fails rt env' r →
    ∃ results' drifts', run rt env' = .ok (results', drifts') ∧
      ∀ q ∈ RESOURCES, q.name ≠ r.name → results'.lookup q.name = results.lookup q.name ∧
        drifts'.filter (fun d => d.resource = q.name) = drifts.filter fun d => d.resource = q.name

/-- Where nothing goes wrong, there is a result. -/
theorem check_returns_of_not_fails (h : ¬ Fails rt env r) : ∃ out, check rt env r = .ok out := by
  rw [Fails, not_or] at h
  obtain ⟨hload, hrest⟩ := h
  refine check_returns_iff.mpr ⟨fun e he => absurd ⟨e, he⟩ hload, fun spec hspec => ⟨?_, ?_⟩⟩
  · cases hwork : r.has_work spec with
    | ok work => exact ⟨work, rfl⟩
    | error e => exact absurd ⟨spec, hspec, .inl ⟨e, hwork⟩⟩ hrest
  · exact fun hwork hsnap e he => absurd ⟨spec, hspec, .inr ⟨hwork, hsnap, e, he⟩⟩ hrest

/-- Where something goes wrong, and there is a result, it is an error entry. -/
theorem error_of_fails (h : Fails rt env r) {out : String × List D}
    (hout : check rt env r = .ok out) : ∃ message, out.1 = "error: " ++ message := by
  obtain ⟨e, he⟩ | ⟨spec, hspec, hwrong⟩ := h
  · cases checked_of_check hout with
    | @spec _ message _ => exact ⟨"spec " ++ message, by rw [← String.append_assoc]; rfl⟩
    | idle h => exact nomatch he.symm.trans h
    | noSnapshot h => exact nomatch he.symm.trans h
    | diff h => exact nomatch he.symm.trans h
    | compared h => exact nomatch he.symm.trans h
  · have hsame : ∀ {spec' : Value}, _load_yaml env (env.spec_path r) = .ok spec' → spec' = spec :=
      fun h => Except.ok.inj (h.symm.trans hspec)
    cases checked_of_check hout with
    | spec h => exact nomatch h.symm.trans hspec
    | @diff _ _ message _ _ _ _ => exact ⟨message, rfl⟩
    | idle h hwork =>
      obtain rfl := hsame h
      obtain ⟨e, he⟩ | ⟨htrue, -⟩ := hwrong
      · exact nomatch he.symm.trans hwork
      · exact nomatch htrue.symm.trans hwork
    | noSnapshot h hwork hsnap =>
      obtain rfl := hsame h
      obtain ⟨e, he⟩ | ⟨-, htrue, -⟩ := hwrong
      · exact nomatch he.symm.trans hwork
      · exact nomatch htrue.symm.trans hsnap
    | compared h hwork hsnap hdiff =>
      obtain rfl := hsame h
      obtain ⟨e, he⟩ | ⟨-, -, e, he⟩ := hwrong
      · exact nomatch he.symm.trans hwork
      · exact nomatch he.symm.trans hdiff

/-- A report isolates errors. -/
theorem isolates_of_run {results : List (String × String)} {drifts : List D}
    (h : run rt env = .ok (results, drifts)) : Isolates rt env results drifts := by
  have hpart : ∀ {env : Env} {results : List (String × String)} {drifts : List D},
      run rt env = .ok (results, drifts) → ∀ q ∈ RESOURCES, ∀ out, check rt env q = .ok out →
        results.lookup q.name = some out.1 ∧
          drifts.filter (fun d => d.resource = q.name) = out.2 := by
    intro env results drifts h q hq out hout
    obtain ⟨outs, houts, heq⟩ := runFrom_eq_ok_iff.mp h
    obtain ⟨rfl, rfl⟩ := Prod.mk.inj heq
    exact part_of_forall₂ houts (fun _ hr => hr) (by decide) hq hout
  have hchecks := run_returns_iff.mp ⟨_, h⟩
  refine ⟨?_, fun r hr hfails => ?_, fun r hr env' hsame hsound => ?_⟩
  · obtain ⟨outs, houts, heq⟩ := runFrom_eq_ok_iff.mp h
    rw [(Prod.mk.inj heq).1, List.nil_append]
    exact names_results houts
  · obtain ⟨out, hout⟩ := hchecks r hr
    obtain ⟨message, hmessage⟩ := error_of_fails hfails hout
    exact ⟨message, hmessage ▸ (hpart h r hr out hout).1⟩
  · have hreturns : ∃ report, run rt env' = .ok report := by
      refine run_returns_iff.mpr fun q hq => ?_
      by_cases hne : q.name = r.name
      · obtain rfl := List.inj_on_of_nodup_map (by decide) hq hr hne
        exact check_returns_of_not_fails hsound
      · rw [hsame.check_eq hr hq hne]
        exact hchecks q hq
    obtain ⟨⟨results', drifts'⟩, hrun⟩ := hreturns
    refine ⟨results', drifts', hrun, fun q hq hne => ?_⟩
    obtain ⟨out, hout⟩ := hchecks q hq
    obtain ⟨hentry, hdrifts⟩ := hpart h q hq out hout
    obtain ⟨hentry', hdrifts'⟩ := hpart hrun q hq out (hsame.check_eq hr hq hne ▸ hout)
    exact ⟨hentry'.trans hentry.symm, hdrifts'.trans hdrifts.symm⟩

end DriftReport
