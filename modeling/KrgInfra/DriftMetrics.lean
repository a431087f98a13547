/-
What the drift detector publishes (`drift/drift_detector.py`).

The differences are counted for each resource, and written as metrics; an exit status says whether
there are any, or whether some resource could not be compared.

* `render_prometheus`, `exitStatus`, `main` — the metrics file and the status of a run;
* `outcome` — what the check of a resource gives;
* `metrics_agree` — what the file says when it is read, next to the checks and the status.

The report that is printed is left out.
-/
import KrgInfra.DriftIsolation
import KrgInfra.Exposition

namespace DriftReport

open Python PyObject Raising Exposition

variable {rt : Runtime}

/-! ### The metrics -/

/-- `text.replace(c, new)` -/
def replaceChar (c : Char) (new text : List Char) : List Char :=
  text.flatMap fun d => if d = c then new else [d]

def lbl (s : String) : String :=
  String.ofList (replaceChar '"' ['\\', '"'] (replaceChar '\\' ['\\', '\\'] s.toList))

/-- `str(v).startswith("error")` -/
def isError (v : String) : Bool := "error".toList.isPrefixOf v.toList

/-- `not str(v).startswith("error") and v != "no-snapshot"` of all results -/
def checked (results : List (String × String)) : Bool :=
  results.all fun result => !isError result.2 && result.2 ≠ "no-snapshot"

/-- `sum(1 for d in drifts if d["resource"] == name)` -/
def count (name : String) (drifts : List D) : ℕ := drifts.countP fun d => d.resource = name

def resourceLines (host : String) (drifts : List D) (r : Resource) : List String :=
  ["krg_synology_drift\x7bhost=\"" ++ lbl host ++ "\",resource=\"" ++ r.name ++ "\"\x7d " ++
      (if count r.name drifts ≠ 0 then "1" else "0"),
    "krg_synology_drift_items\x7bhost=\"" ++ lbl host ++ "\",resource=\"" ++ r.name ++ "\"\x7d " ++
      toString (count r.name drifts)]

/-- The text, at some time since the epoch. -/
def render_prometheus (host : String) (results : List (String × String)) (drifts : List D)
    (time : ℕ) : String :=
  unlines (["# HELP krg_synology_drift Live DSM state diverges from spec (1=drift).",
      "# TYPE krg_synology_drift gauge"] ++
    RESOURCES.flatMap (resourceLines host drifts) ++
    ["# HELP krg_synology_drift_check_success Detector ran with all snapshots present+parsed.",
      "# TYPE krg_synology_drift_check_success gauge",
      "krg_synology_drift_check_success\x7bhost=\"" ++ lbl host ++ "\"\x7d " ++
        (if checked results then "1" else "0"),
      "# HELP krg_synology_drift_check_timestamp_seconds Unix time of this check.",
      "# TYPE krg_synology_drift_check_timestamp_seconds gauge",
      "krg_synology_drift_check_timestamp_seconds\x7bhost=\"" ++ lbl host ++ "\"\x7d " ++
        toString time])

def exitStatus (results : List (String × String)) (drifts : List D) : ℕ :=
  if results.any fun result => isError result.2 || result.2 = "no-snapshot" then 2
  else if drifts.isEmpty then 0 else 1

/-- The metrics file of a run, and its exit status. -/
def main (rt : Runtime) (env : Env) (time : ℕ) : Except Exn (String × ℕ) := do
  let (results, drifts) ← run rt env
  return (render_prometheus env.host results drifts time, exitStatus results drifts)

/-! ### The checks -/

/-- What the check of a resource gives, where it gives something. -/
def outcome (rt : Runtime) (env : Env) (r : Resource) : String × List D :=
  match check rt env r with
  | .ok out => out
  | .error _ => ("", [])

/-- A resource was compared, or its spec has nothing to compare. -/
def Compared (out : String × List D) : Prop := out.1 = "ok" ∨ out.1 = "drift"

instance (out : String × List D) : Decidable (Compared out) := inferInstanceAs (Decidable (_ ∨ _))

section Checks

variable {env : Env} {r : Resource} {out : String × List D}

theorem outcome_of_check (h : check rt env r = .ok out) : outcome rt env r = out := by
  rw [outcome, h]

theorem isError_error (message : String) : isError ("error: " ++ message) = true := by
  rw [isError, List.isPrefixOf_iff_prefix, String.toList_append]
  exact ⟨": ".toList ++ message.toList, rfl⟩

theorem not_compared_error (message : String) (found : List D) :
    ¬ Compared ("error: " ++ message, found) := by
  have herror := isError_error message
  rintro (h | h)
  all_goals
    rw [show "error: " ++ message = _ from h] at herror
    exact absurd herror (by decide)

/-- The entry of a resource says whether it was compared. -/
theorem entry_iff (h : Checked rt env r out) :
    (!isError out.1 && out.1 ≠ "no-snapshot") = true ↔ Compared out := by
  cases h with
  | @spec e message h =>
    have herror := isError_error ("spec " ++ message)
    have hnot := not_compared_error ("spec " ++ message) []
    rw [show "error: " ++ ("spec " ++ message) = "error: spec " ++ message by
      rw [← String.append_assoc]; rfl] at herror hnot
    simp [herror, hnot]
  | idle => exact iff_of_true (by decide) (.inl rfl)
  | noSnapshot => exact iff_of_false (by decide) (by decide)
  | @diff _ _ message =>
    simp [isError_error message, not_compared_error message []]
  | @compared _ found =>
    by_cases hempty : found.isEmpty = true
    · rw [if_pos hempty]
      have hok : (!isError "ok" && "ok" ≠ "no-snapshot") = true := by decide
      exact iff_of_true hok (.inl rfl)
    · rw [if_neg hempty]
      have hdrift : (!isError "drift" && "drift" ≠ "no-snapshot") = true := by decide
      exact iff_of_true hdrift (.inr rfl)

/-- Where a resource differs, it was compared. -/
theorem compared_of_ne_nil (h : Checked rt env r out) (hne : out.2 ≠ []) : Compared out := by
  cases h with
  | spec | idle | noSnapshot | diff => exact absurd rfl hne
  | @compared _ found =>
    by_cases hempty : found.isEmpty = true
    · exact absurd (List.isEmpty_iff.mp hempty) hne
    · rw [if_neg hempty]
      exact .inr rfl

end Checks

/-! ### The text -/

section Text

variable {host : String} {drifts : List D} {r : Resource}

/-- The two replacements are the escape of the format. -/
theorem toList_lbl (s : String) : (lbl s).toList = escaped s.toList := by
  rw [lbl, String.toList_ofList]
  induction s.toList with
  | nil => rfl
  | cons c l ih =>
    rw [escaped_cons, ← ih, replaceChar, replaceChar, List.flatMap_cons, List.flatMap_append]
    congr 1
    by_cases hbackslash : c = '\\'
    · subst hbackslash
      rfl
    · by_cases hquote : c = '"'
      · subst hquote
        rfl
      · simp [hbackslash, hquote]

/-- The samples of a resource. -/
def resourceSamples (host : String) (r : Resource) (n : ℕ) : List Sample :=
  [⟨"krg_synology_drift", [("host", host), ("resource", r.name)], if n ≠ 0 then "1" else "0"⟩,
    ⟨"krg_synology_drift_items", [("host", host), ("resource", r.name)], toString n⟩]

/-- The samples of a run: what was found for each resource, and whether all were compared. -/
def samples (host : String) (n : Resource → ℕ) (ok : Bool) (time : ℕ) : List Sample :=
  RESOURCES.flatMap (fun r => resourceSamples host r (n r)) ++
    [⟨"krg_synology_drift_check_success", [("host", host)], if ok then "1" else "0"⟩,
      ⟨"krg_synology_drift_check_timestamp_seconds", [("host", host)], toString time⟩]

/-- The lines of the text. -/
def textLines (host : String) (n : Resource → ℕ) (ok : Bool) (time : ℕ) : List Line :=
  [.comment "HELP krg_synology_drift Live DSM state diverges from spec (1=drift).",
    .comment "TYPE krg_synology_drift gauge"] ++
  RESOURCES.flatMap (fun r => (resourceSamples host r (n r)).map .sample) ++
  [.comment "HELP krg_synology_drift_check_success Detector ran with all snapshots present+parsed.",
    .comment "TYPE krg_synology_drift_check_success gauge",
    .sample ⟨"krg_synology_drift_check_success", [("host", host)], if ok then "1" else "0"⟩,
    .comment "HELP krg_synology_drift_check_timestamp_seconds Unix time of this check.",
    .comment "TYPE krg_synology_drift_check_timestamp_seconds gauge",
    .sample ⟨"krg_synology_drift_check_timestamp_seconds", [("host", host)], toString time⟩]

theorem text_host (name value : String) : Sample.text ⟨name, [("host", host)], value⟩ =
    name ++ "\x7bhost=\"" ++ lbl host ++ "\"\x7d " ++ value := by
  apply String.toList_injective
  simp [toList_text, writtenLabels, Prom.labelText, Prom.label, toList_lbl, String.toList_append]

theorem text_resource (hr : escaped r.name.toList = r.name.toList) (name value : String) :
    Sample.text ⟨name, [("host", host), ("resource", r.name)], value⟩ =
      name ++ "\x7bhost=\"" ++ lbl host ++ "\",resource=\"" ++ r.name ++ "\"\x7d " ++ value := by
  apply String.toList_injective
  simp [toList_text, writtenLabels, Prom.labelText, Prom.label, toList_lbl, String.toList_append, hr]

theorem escaped_name : ∀ r ∈ RESOURCES, escaped r.name.toList = r.name.toList := by
  decide

theorem resourceLines_eq (hr : r ∈ RESOURCES) : resourceLines host drifts r =
    (resourceSamples host r (count r.name drifts)).map Sample.text := by
  rw [resourceLines, resourceSamples, List.map_cons, List.map_singleton,
    text_resource (escaped_name r hr), text_resource (escaped_name r hr)]
  rfl

theorem render_eq (results : List (String × String)) (time : ℕ) :
    render_prometheus host results drifts time =
      unlines ((textLines host (fun r => count r.name drifts) (checked results) time).map
        Line.text) := by
  have hresources : RESOURCES.flatMap (resourceLines host drifts) =
      (RESOURCES.flatMap fun r => (resourceSamples host r (count r.name drifts)).map Line.sample).map
        Line.text := by
    rw [List.map_flatMap]
    refine List.flatMap_congr fun r hr => ?_
    rw [resourceLines_eq hr, List.map_map]
    rfl
  rw [render_prometheus, textLines, List.map_append, List.map_append, ← hresources]
  simp only [List.map_cons, List.map_nil, Line.text, text_host]
  rfl

theorem newline_not_mem_number (n : ℕ) : '\n' ∉ (toString n).toList := by
  rw [Nat.toString_eq_ofList_toDigits, String.toList_ofList]
  intro hmem
  exact absurd (Nat.isDigit_of_mem_toDigits (by omega) (by omega) hmem) (by decide)

theorem newline_not_mem_flag (p : Prop) [Decidable p] :
    '\n' ∉ (if p then "1" else "0" : String).toList := by
  split_ifs <;> decide

theorem word_host : Prom.Word "host" := ⟨by decide, by decide⟩

theorem word_resource : Prom.Word "resource" := ⟨by decide, by decide⟩

theorem fine_host (hhost : '\n' ∉ host.toList) {name value : String} (hname : Prom.Word name)
    (hvalue : '\n' ∉ value.toList) : Fine ⟨name, [("host", host)], value⟩ where
  name := hname
  labels := List.cons_ne_nil _ _
  words kv hkv := by
    obtain rfl := List.mem_singleton.mp hkv
    exact ⟨word_host, hhost⟩
  value := hvalue

theorem fine_resource (hhost : '\n' ∉ host.toList) (hr : '\n' ∉ r.name.toList)
    {name value : String} (hname : Prom.Word name) (hvalue : '\n' ∉ value.toList) :
    Fine ⟨name, [("host", host), ("resource", r.name)], value⟩ where
  name := hname
  labels := List.cons_ne_nil _ _
  words kv hkv := by
    obtain rfl | hkv := List.mem_cons.mp hkv
    · exact ⟨word_host, hhost⟩
    · obtain rfl := List.mem_singleton.mp hkv
      exact ⟨word_resource, hr⟩
  value := hvalue

theorem fine_resourceSamples (hhost : '\n' ∉ host.toList) (hr : r ∈ RESOURCES) (n : ℕ) :
    ∀ s ∈ resourceSamples host r n, Fine s := by
  have hname : ∀ r ∈ RESOURCES, '\n' ∉ r.name.toList := by decide
  intro s hs
  obtain rfl | hs := List.mem_cons.mp hs
  · exact fine_resource hhost (hname r hr) ⟨by decide, by decide⟩ (newline_not_mem_flag _)
  · obtain rfl := List.mem_singleton.mp hs
    exact fine_resource hhost (hname r hr) ⟨by decide, by decide⟩ (newline_not_mem_number n)

/-- The lines can be read, for a host that is on one line. -/
theorem textLines_fine (hhost : '\n' ∉ host.toList) (n : Resource → ℕ) (ok : Bool) (time : ℕ) :
    ∀ line ∈ textLines host n ok time, line.Fine := by
  intro line hline
  rw [textLines, List.append_assoc, List.mem_append, List.mem_append] at hline
  obtain hline | hline | hline := hline
  · revert hline line
    simp only [List.forall_mem_cons, Line.Fine]
    exact ⟨by decide, by decide, fun _ h => absurd h List.not_mem_nil⟩
  · obtain ⟨r, hr, hline⟩ := List.mem_flatMap.mp hline
    obtain ⟨s, hs, rfl⟩ := List.mem_map.mp hline
    exact fine_resourceSamples hhost hr (n r) s hs
  · revert hline line
    simp only [List.forall_mem_cons, Line.Fine]
    exact ⟨by decide, by decide,
      fine_host hhost ⟨by decide, by decide⟩ (newline_not_mem_flag _), by decide, by decide,
      fine_host hhost ⟨by decide, by decide⟩ (newline_not_mem_number time),
      fun _ h => absurd h List.not_mem_nil⟩

theorem textLines_samples (n : Resource → ℕ) (ok : Bool) (time : ℕ) :
    (textLines host n ok time).filterMap Line.sample? = samples host n ok time := by
  have hresource : ∀ r, ((resourceSamples host r (n r)).map Line.sample).filterMap Line.sample? =
      resourceSamples host r (n r) := fun r => rfl
  rw [textLines, samples, List.filterMap_append, List.filterMap_append, List.filterMap_flatMap]
  simp only [hresource]
  rfl

theorem samples_congr {n n' : Resource → ℕ} (h : ∀ r ∈ RESOURCES, n r = n' r) (ok : Bool)
    (time : ℕ) : samples host n ok time = samples host n' ok time := by
  rw [samples, samples, List.flatMap_congr fun r hr => by rw [h r hr]]

/-- The text is read back. -/
theorem readMetrics_render (hhost : '\n' ∉ host.toList) (results : List (String × String))
    (drifts : List D) (time : ℕ) : readMetrics (render_prometheus host results drifts time) =
      some (samples host (fun r => count r.name drifts) (checked results) time) := by
  rw [render_eq, readMetrics_unlines (textLines_fine hhost _ _ _), textLines_samples]

end Text

/-! ### A run -/

section Run

variable {env : Env} {results : List (String × String)} {drifts : List D}

theorem outs_eq {rs : List Resource} {outs : List (String × List D)}
    (h : List.Forall₂ (fun r out => check rt env r = .ok out) rs outs) :
    outs = rs.map (outcome rt env) := by
  induction h with
  | nil => rfl
  | cons hout _ ih => rw [List.map_cons, outcome_of_check hout, ih]

/-- The report of a run, from what the checks give. -/
theorem run_eq (h : run rt env = .ok (results, drifts)) :
    (∀ r ∈ RESOURCES, check rt env r = .ok (outcome rt env r)) ∧
      results = RESOURCES.map (fun r => (r.name, (outcome rt env r).1)) ∧
      drifts = RESOURCES.flatMap (fun r => (outcome rt env r).2) ∧
      ∀ r ∈ RESOURCES, count r.name drifts = (outcome rt env r).2.length := by
  have hchecks : ∀ r ∈ RESOURCES, check rt env r = .ok (outcome rt env r) := by
    intro r hr
    obtain ⟨out, hout⟩ := run_returns_iff.mp ⟨_, h⟩ r hr
    rw [hout, outcome_of_check hout]
  obtain ⟨outs, houts, heq⟩ := runFrom_eq_ok_iff.mp h
  obtain ⟨hresults, hdrifts⟩ := Prod.mk.inj heq
  have hcount : ∀ r ∈ RESOURCES, count r.name drifts = (outcome rt env r).2.length := by
    intro r hr
    rw [count, List.countP_eq_length_filter, hdrifts, List.nil_append,
      (part_of_forall₂ houts (fun _ hr => hr) (by decide) hr (hchecks r hr)).2]
  obtain rfl := outs_eq houts
  refine ⟨hchecks, ?_, ?_, hcount⟩
  · rw [hresults, List.nil_append, List.zipWith_map_right, List.zipWith_self]
  · rw [hdrifts, List.nil_append, List.map_map, List.flatMap_def]
    rfl

/-- All results are good ones exactly where all resources were compared. -/
theorem checked_iff (h : run rt env = .ok (results, drifts)) :
    checked results = true ↔ ∀ r ∈ RESOURCES, Compared (outcome rt env r) := by
  obtain ⟨hchecks, rfl, -, -⟩ := run_eq h
  rw [checked, List.all_map, List.all_eq_true]
  exact forall₂_congr fun r hr => entry_iff (checked_of_check (hchecks r hr))

theorem exitStatus_eq : exitStatus results drifts =
    if checked results then if drifts.isEmpty then 0 else 1 else 2 := by
  have hany : (results.any fun result => isError result.2 || result.2 = "no-snapshot") =
      !checked results := by
    rw [checked, List.not_all_eq_any_not]
    congr 1
    funext result
    simp
  rw [exitStatus, hany]
  cases checked results <;> rfl

end Run

/-- **The metrics of a run** can be read, for a host whose name is on one line, and agree with the
checks and with the exit status: they tell how many differences each resource has, and whether all
were compared; the status is 2 where one was not, and else 1 where there is a difference. -/
theorem metrics_agree {env : Env} {time : ℕ} {text : String} {status : ℕ}
    (h : main rt env time = .ok (text, status)) (hhost : '\n' ∉ env.host.toList) :
    (∀ r ∈ RESOURCES, check rt env r = .ok (outcome rt env r)) ∧
    readMetrics text = some (samples env.host (fun r => (outcome rt env r).2.length)
      (∀ r ∈ RESOURCES, Compared (outcome rt env r)) time) ∧
    (status = 2 ↔ ∃ r ∈ RESOURCES, ¬ Compared (outcome rt env r)) ∧
    (status = 1 ↔ (∀ r ∈ RESOURCES, Compared (outcome rt env r)) ∧
      ∃ r ∈ RESOURCES, (outcome rt env r).2 ≠ []) ∧
    (status = 0 ↔ (∀ r ∈ RESOURCES, Compared (outcome rt env r)) ∧
      ∀ r ∈ RESOURCES, (outcome rt env r).2 = []) := by
  rw [main] at h
  obtain ⟨⟨results, drifts⟩, hrun, h⟩ := bind_eq_ok_iff.mp h
  obtain ⟨rfl, rfl⟩ := Prod.mk.inj (Except.ok.inj h)
  obtain ⟨hchecks, -, hdrifts, hcount⟩ := run_eq hrun
  have hchecked := checked_iff hrun
  have hempty : drifts.isEmpty = true ↔ ∀ r ∈ RESOURCES, (outcome rt env r).2 = [] := by
    rw [List.isEmpty_iff, hdrifts, List.flatMap_eq_nil_iff]
  refine ⟨hchecks, ?_, ?_⟩
  · rw [readMetrics_render hhost, samples_congr hcount, (Bool.eq_iff_iff.mpr (hchecked.trans decide_eq_true_iff.symm) :
      checked results = decide _)]
  · have hbad : (∃ r ∈ RESOURCES, ¬ Compared (outcome rt env r)) ↔
        ¬ ∀ r ∈ RESOURCES, Compared (outcome rt env r) := by simp
    have hdiff : (∃ r ∈ RESOURCES, (outcome rt env r).2 ≠ []) ↔
        ¬ ∀ r ∈ RESOURCES, (outcome rt env r).2 = [] := by simp
    rw [hbad, hdiff, ← hchecked, ← hempty, exitStatus_eq]
    cases checked results <;> cases drifts.isEmpty <;> decide

/-- A host with a quote in its name, without a snapshot. -/
def quotedHost : Env where
  spec_dir := "spec"
  snapshot_dir := "live"
  host := "nas\"1"
  safe_load path := .ok (if path = "spec/smb-globals.yml" then
    .dict [(.str "smb", .dict [(.str "enable", .bool true)])] else .null)
  present _ := false

/-- A runtime that reads no JSON, as none is to be read. -/
def noJson : Runtime where
  loads _ := .error (.valueError "")
  str _ := ""
  repr _ := ""
  hashes_slices := false

/-- Its file says that not all was compared. -/
theorem metrics_agree_quoted : ∃ text found,
    main noJson quotedHost 7 = .ok (text, 2) ∧ readMetrics text = some found ∧
      ⟨"krg_synology_drift_check_success", [("host", "nas\"1")], "0"⟩ ∈ found := by
  obtain ⟨text, hmain⟩ : ∃ text, main noJson quotedHost 7 = .ok (text, 2) := ⟨_, rfl⟩
  obtain ⟨-, hread, hstatus, -⟩ := metrics_agree hmain (by decide)
  refine ⟨text, _, hmain, hread, ?_⟩
  rw [decide_eq_false (by simpa using hstatus.mp rfl)]
  simp [samples, quotedHost]

end DriftReport
