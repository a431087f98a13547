/-
`apply_dsm_system.py`, and how its output is read.

The role tells how a run ended by looking for the words FAIL, CHANGED and WOULD-CHANGE in what the
script printed.  The script prints values of the spec and of DSM next to its own words.

* `result`, `do_network`, `do_package_defaults`, `do_ntp`, `do_package_state` — the commands;
* `Shown` — the values that a run prints;
* `classified_iff` — when the words tell how the run ended.

What is sent to DSM, and what a run prints that raises an exception, is left out.
-/
import KrgInfra.FullObject
import KrgInfra.JsonWords

namespace ApplyDsmSystem

open Json JsonText Python WordSearch

/-- What `synopkg start` does, and whether the package is on afterwards. -/
structure Start where
  returncode : ℕ
  stdout : String
  stderr : String
  on : Bool

/-- What a run is told: the answers to its `get` and its `set`, `none` where the call raises, and
the state of the packages. -/
structure Dsm where
  get : Option Members
  set : Option Members
  installed : String → Bool
  is_on : String → Bool
  start : String → Start

/-- A run: its exit status, standard output and standard error as one text, whether it found
drift, and whether it has changed something. -/
structure Run where
  status : ℕ
  out : List Char
  found : Bool
  changed : Bool

/-- A run that raises. -/
def Run.raised : Run := ⟨1, [], false, false⟩

section Commands

variable (F : PyFloats) (P : Printable)

/-- A word, and a value that is printed after it. -/
def line (word : String) (v : Json) : List Char :=
  word.toList ++ ' ' :: (dumps F.toFloats v ++ ['\n'])

/-- `_result` -/
def result (drift : Members) (check : Bool) (set : Option Members) : Run :=
  if drift.isEmpty then ⟨0, "OK no-change\n".toList, false, false⟩
  else if check then ⟨0, line F "WOULD-CHANGE" (sortKeys (.obj drift)), true, false⟩
  else
    match set with
    | none => .raised
    | some res =>
      if truthy (res.get "success") then
        ⟨0, line F "CHANGED" (sortKeys (.obj drift)), true, true⟩
      else ⟨1, line F "FAIL" (.obj res), true, false⟩

/-- The desired members that are not as they are. -/
def drifted (desired current : Members) : Members :=
  desired.filter fun m => !pyEq (current.get m.1) m.2

/-- The drift of a `data` value; `none` where that is no dictionary, and is asked. -/
def drift_of (desired : Members) : Json → Option Members
  | .obj current => some ((drifted desired current).map fun m =>
      (m.1, .obj [("current", Members.get current m.1), ("desired", m.2)]))
  | _ => if desired.isEmpty then some [] else none

/-- `current = reply["data"]`, the drift, and `_result`. -/
def apply_data (reply desired : Members) (check : Bool) (set : Option Members) : Run :=
  match (reply.lookup "data").bind (drift_of desired) with
  | none => .raised
  | some drift => result F drift check set

/-- `apply_full` -/
def apply_full (desired : Members) (check : Bool) (dsm : Dsm) : Run :=
  match dsm.get with
  | none => .raised
  | some reply => apply_data F reply desired check dsm.set

/-- The commands that ask first whether the `get` has succeeded. -/
def apply_checked (reason : String) (desired : Members) (check : Bool) (dsm : Dsm) : Run :=
  match dsm.get with
  | none => .raised
  | some reply =>
    if truthy (reply.get "success") then apply_data F reply desired check dsm.set
    else ⟨1, line F "FAIL" (.obj [("reason", .str reason), ("response", .obj reply)]), false, false⟩

structure NetworkArgs where
  hostname : Option String
  gateway : Option String
  dns_primary : Option String
  dns_secondary : Option String
  dns_manual : Option String
  ipv4_first : Option String

/-- The members that `do_network` wants. -/
def NetworkArgs.desired (a : NetworkArgs) : Members :=
  [("server_name", a.hostname.map Json.str), ("gateway", a.gateway.map .str),
    ("dns_primary", a.dns_primary.map .str), ("dns_secondary", a.dns_secondary.map .str),
    ("dns_manual", a.dns_manual.map fun s => .bool (pyBool s)),
    ("ipv4_first", a.ipv4_first.map fun s => .bool (pyBool s))].filterMap
      fun (key, value) => value.map fun value => (key, value)

def do_network (a : NetworkArgs) (check : Bool) (dsm : Dsm) : Run :=
  apply_full F a.desired check dsm

def do_package_defaults (install_volume : String) (check : Bool) (dsm : Dsm) : Run :=
  apply_checked F "SYNO.Core.Package.Setting GET failed" [("default_vol", .str install_volume)]
    check dsm

/-- What `do_ntp` wants. -/
def ntpDesired (server : String) : Members := [("enable_ntp", .str "ntp"), ("server", .str server)]

def do_ntp (server enabled : String) (check : Bool) (dsm : Dsm) : Run :=
  if pyBool enabled then
    apply_checked F "SYNO.Core.Region.NTP GET failed" (ntpDesired server) check dsm
  else .raised

/-- The names that `--packages` holds; `none` where it holds no list of texts. -/
def packageNames (packages : String) : Option (List String) :=
  match loads (json F.toFloats) packages.toList with
  | some (.arr items) => items.mapM fun
    | .str p => some p
    | _ => none
  | _ => none

/-- The packages that are not installed, those that are to be started. -/
def missing (desired : List String) (dsm : Dsm) : List String :=
  desired.filter fun p => !dsm.installed p

def stopped (desired : List String) (dsm : Dsm) : List String :=
  desired.filter fun p => p ∉ missing desired dsm ∧ dsm.is_on p = false

/-- The warning about a package that is not installed. -/
def warning (p : String) : List Char :=
  "WARN: package".toList ++ ' ' :: (pyStr P p ++ ' ' ::
    ("is not installed (no /var/packages".toList ++ '/' :: (p.toList ++ ')' ::
      (" — skipping. Install via terraform `synology_core_package` first.".toList ++ ['\n']))))

/-- `text.strip()[:200]` -/
def shortened (text : String) : Json := .str (String.ofList ((strip text).toList.take 200))

/-- The packages that did not start. -/
def notStarted (drift : List String) (dsm : Dsm) : List Json :=
  (drift.filter fun p => (dsm.start p).returncode ≠ 0 ∨ (dsm.start p).on = false).map fun p =>
    .obj [("package", .str p), ("stderr", shortened (dsm.start p).stderr),
      ("stdout", shortened (dsm.start p).stdout)]

/-- The end of `do_package_state`. -/
def start_packages (drift : List String) (check : Bool) (dsm : Dsm) : Run :=
  if drift.isEmpty then ⟨0, "OK no-change\n".toList, false, false⟩
  else if check then
    ⟨0, line F "WOULD-CHANGE" (sortKeys (.obj [("start", .arr (drift.map .str))])), true, false⟩
  else
    match notStarted drift dsm with
    | [] => ⟨0, line F "CHANGED" (sortKeys (.obj [("started", .arr (drift.map .str))])), true, true⟩
    | failed :: more => ⟨1, line F "FAIL" (.arr (failed :: more)), true, false⟩

def do_package_state (packages : String) (check : Bool) (dsm : Dsm) : Run :=
  match packageNames F packages with
  | none => .raised
  | some desired =>
    let run := start_packages F (stopped desired dsm) check dsm
    { run with out := (missing desired dsm).flatMap (warning P) ++ run.out }

inductive Command where
  | network (a : NetworkArgs)
  | package_defaults (install_volume : String)
  | package_state (packages : String)
  | ntp (server enabled : String)

def run (cmd : Command) (check : Bool) (dsm : Dsm) : Run :=
  match cmd with
  | .network a => do_network F a check dsm
  | .package_defaults install_volume => do_package_defaults F install_volume check dsm
  | .package_state packages => do_package_state F P packages check dsm
  | .ntp server enabled => do_ntp F server enabled check dsm

end Commands

/-! ### What a run prints -/

/-- The words that the role looks for. -/
def reserved : List (List Char) := ["FAIL".toList, "CHANGED".toList, "WOULD-CHANGE".toList]

theorem sentinel_of_reserved {w : List Char} (h : w ∈ reserved) : Sentinel w := by
  have hall : ∀ w ∈ reserved, (∀ c ∈ w, c.isUpper = true ∨ c = '-') ∧
      (∃ c ∈ w, c.isUpper = true) ∧ 2 ≤ w.length := by decide
  exact ⟨(hall w h).1, (hall w h).2.1, (hall w h).2.2⟩

section Shown

variable (F : PyFloats)

/-- The values that are printed of desired members and of those that are there. -/
def shownData (desired : Members) (dsm : Dsm) : List Json :=
  match dsm.get.bind fun reply => reply.lookup "data" with
  | some (.obj current) =>
    (drifted desired current).flatMap fun m => [Members.get current m.1, m.2]
  | _ => []

/-- The values of the spec and of DSM that a run prints: those that differ, and the packages that
are missing or stopped. -/
def Command.shown (cmd : Command) (dsm : Dsm) : List Json :=
  match cmd with
  | .network a => shownData a.desired dsm
  | .package_defaults install_volume => shownData [("default_vol", .str install_volume)] dsm
  | .ntp server _ => shownData (ntpDesired server) dsm
  | .package_state packages =>
    match packageNames F packages with
    | none => []
    | some desired => (missing desired dsm ++ stopped desired dsm).map .str

/-- There is something to change. -/
def Command.drifts (cmd : Command) (dsm : Dsm) : Bool :=
  match cmd with
  | .package_state packages =>
    match packageNames F packages with
    | none => false
    | some desired => !(stopped desired dsm).isEmpty
  | cmd => !(cmd.shown F dsm).isEmpty

end Shown

/-- The word of a run that ends well. -/
def verdict (drifts check : Bool) : List Char :=
  if drifts then if check then "WOULD-CHANGE".toList else "CHANGED".toList else []

/-- A run that ends well: what it finds, what it changes, and where the words stand in what it
prints. -/
structure Ends (shown : List Json) (drifts check : Bool) (run : Run) : Prop where
  found : run.found = drifts
  changed : run.changed = (drifts && !check)
  out : ∀ w ∈ reserved, w <:+: run.out ↔ w <:+: verdict drifts check ∨ ∃ v ∈ shown, Mentions w v

variable {F : PyFloats} {P : Printable}

theorem infix_line {w : List Char} (h : Sentinel w) (word : String) (v : Json) :
    w <:+: line F word (sortKeys v) ↔ w <:+: word.toList ∨ Mentions w v := by
  rw [line, infix_cut h.ne_nil (h.not_mem (by decide)), infix_cut h.ne_nil (h.not_mem (by decide)),
    List.infix_nil, or_iff_left h.ne_nil, infix_dumps F h]

theorem ends_ok {check : Bool} : Ends [] false check ⟨0, "OK no-change\n".toList, false, false⟩ where
  found := rfl
  changed := rfl
  out w hw := by
    have hall : ∀ w ∈ reserved, ¬ w <:+: "OK no-change\n".toList := by decide
    refine iff_of_false (hall w hw) ?_
    rintro (hnil | ⟨v, hv, -⟩)
    · exact (sentinel_of_reserved hw).ne_nil (List.infix_nil.mp hnil)
    · cases hv

/-- What is printed of a drift: its keys and the names of its two values are no reserved words. -/
theorem mentions_drift {w : List Char} (hw : w ∈ reserved) {desired current : Members}
    (hkeys : ∀ m ∈ desired, ∀ c ∈ m.1.toList, c.isUpper = false) :
    Mentions w (.obj ((drifted desired current).map fun m =>
        (m.1, .obj [("current", Members.get current m.1), ("desired", m.2)]))) ↔
      ∃ v ∈ (drifted desired current).flatMap fun m => [Members.get current m.1, m.2],
        Mentions w v := by
  have hsentinel := sentinel_of_reserved hw
  have hcurrent : ¬ w <:+: "current".toList := hsentinel.absent (by decide)
  have hdesired : ¬ w <:+: "desired".toList := hsentinel.absent (by decide)
  rw [mentions_obj]
  simp only [List.mem_map, List.mem_flatMap]
  constructor
  · rintro ⟨_, ⟨m, hm, rfl⟩, hkey | hvalue⟩
    · exact absurd hkey (hsentinel.absent (hkeys m (List.mem_filter.mp hm).1))
    · simp only [mentions_obj, List.exists_mem_cons_iff, hcurrent, hdesired, false_or] at hvalue
      rcases hvalue with hlive | hwant | ⟨_, hnil, -⟩
      · exact ⟨_, ⟨m, hm, List.mem_cons_self⟩, hlive⟩
      · exact ⟨_, ⟨m, hm, List.mem_cons_of_mem _ List.mem_cons_self⟩, hwant⟩
      · exact nomatch hnil
  · rintro ⟨v, ⟨m, hm, hv⟩, hword⟩
    refine ⟨_, ⟨m, hm, rfl⟩, .inr ?_⟩
    simp only [mentions_obj, List.exists_mem_cons_iff]
    rcases List.mem_cons.mp hv with rfl | hv
    · exact .inl (.inr hword)
    · rw [List.mem_singleton.mp hv] at hword
      exact .inr (.inl (.inr hword))

/-- `_result`, where the drift is that of some shown values. -/
theorem ends_result {drift : Members} {shown : List Json} {check : Bool} {set : Option Members}
    (hempty : drift.isEmpty = shown.isEmpty)
    (hshown : ∀ w ∈ reserved, Mentions w (.obj drift) ↔ ∃ v ∈ shown, Mentions w v)
    (h : (result F drift check set).status = 0) :
    Ends shown (!shown.isEmpty) check (result F drift check set) := by
  unfold result at h ⊢
  by_cases hnil : drift.isEmpty = true
  · rw [if_pos hnil, ← hempty, hnil]
    rw [hempty, List.isEmpty_iff] at hnil
    rw [hnil]
    exact ends_ok
  · have hdrifts : (!shown.isEmpty) = true := by
      rw [← hempty, Bool.eq_false_of_not_eq_true hnil]
      rfl
    rw [if_neg hnil, hdrifts]
    rw [if_neg hnil] at h
    cases check with
    | true =>
      refine ⟨rfl, rfl, fun w hw => ?_⟩
      show w <:+: line F "WOULD-CHANGE" _ ↔ _
      rw [infix_line (sentinel_of_reserved hw), hshown w hw]
      rfl
    | false =>
      rw [if_neg Bool.false_ne_true] at h ⊢
      cases set with
      | none => exact absurd h Nat.one_ne_zero
      | some res =>
        dsimp only at h ⊢
        by_cases hsuccess : truthy (res.get "success") = true
        · rw [if_pos hsuccess]
          refine ⟨rfl, rfl, fun w hw => ?_⟩
          show w <:+: line F "CHANGED" _ ↔ _
          rw [infix_line (sentinel_of_reserved hw), hshown w hw]
          rfl
        · rw [if_neg hsuccess] at h
          exact absurd h Nat.one_ne_zero

/-- The commands that set members. -/
theorem ends_apply_data {reply desired : Members} {check : Bool} {dsm : Dsm}
    (hreply : dsm.get = some reply)
    (hkeys : ∀ m ∈ desired, ∀ c ∈ m.1.toList, c.isUpper = false)
    (h : (apply_data F reply desired check dsm.set).status = 0) :
    Ends (shownData desired dsm) (!(shownData desired dsm).isEmpty) check
      (apply_data F reply desired check dsm.set) := by
  unfold apply_data at h ⊢
  unfold shownData
  rw [hreply, Option.bind_some]
  cases hdata : reply.lookup "data" with
  | none =>
    rw [hdata] at h
    exact absurd h Nat.one_ne_zero
  | some data =>
    rw [hdata, Option.bind_some] at h
    rw [Option.bind_some]
    by_cases hobj : ∃ current, data = .obj current
    · obtain ⟨current, rfl⟩ := hobj
      refine ends_result ?_ (fun w hw => mentions_drift hw hkeys) h
      dsimp only
      cases drifted desired current with
      | nil => rfl
      | cons m more => rfl
    · -- without desired members the data is not looked at
      have hdrift : drift_of desired data = if desired.isEmpty then some [] else none := by
        unfold drift_of
        split
        · exact absurd ⟨_, rfl⟩ hobj
        · rfl
      have hshown : (match some data with
          | some (.obj current) =>
            (drifted desired current).flatMap fun m => [Members.get current m.1, m.2]
          | _ => []) = ([] : List Json) := by
        split
        · rename_i heq
          exact absurd ⟨_, Option.some_inj.mp heq⟩ hobj
        · rfl
      rw [hdrift] at h ⊢
      rw [hshown]
      cases desired with
      | nil => exact ends_ok
      | cons m more => exact absurd h Nat.one_ne_zero

theorem ends_apply_full {desired : Members} {check : Bool} {dsm : Dsm}
    (hkeys : ∀ m ∈ desired, ∀ c ∈ m.1.toList, c.isUpper = false)
    (h : (apply_full F desired check dsm).status = 0) :
    Ends (shownData desired dsm) (!(shownData desired dsm).isEmpty) check
      (apply_full F desired check dsm) := by
  unfold apply_full at h ⊢
  cases hreply : dsm.get with
  | none =>
    rw [hreply] at h
    exact absurd h Nat.one_ne_zero
  | some reply =>
    rw [hreply] at h
    exact ends_apply_data hreply hkeys h

theorem ends_apply_checked {reason : String} {desired : Members} {check : Bool} {dsm : Dsm}
    (hkeys : ∀ m ∈ desired, ∀ c ∈ m.1.toList, c.isUpper = false)
    (h : (apply_checked F reason desired check dsm).status = 0) :
    Ends (shownData desired dsm) (!(shownData desired dsm).isEmpty) check
      (apply_checked F reason desired check dsm) := by
  unfold apply_checked at h ⊢
  cases hreply : dsm.get with
  | none =>
    rw [hreply] at h
    exact absurd h Nat.one_ne_zero
  | some reply =>
    rw [hreply] at h
    dsimp only at h ⊢
    by_cases hsuccess : truthy (reply.get "success") = true
    · rw [if_pos hsuccess] at h ⊢
      exact ends_apply_data hreply hkeys h
    · rw [if_neg hsuccess] at h
      exact absurd h Nat.one_ne_zero

/-- The keys of `do_network` are small letters. -/
theorem network_keys (a : NetworkArgs) : ∀ m ∈ a.desired, ∀ c ∈ m.1.toList, c.isUpper = false := by
  have hkeys : ∀ key ∈ ["server_name", "gateway", "dns_primary", "dns_secondary", "dns_manual",
      "ipv4_first"], ∀ c ∈ key.toList, c.isUpper = false := by decide
  intro m hm
  obtain ⟨⟨key, value⟩, hmem, hvalue⟩ := List.mem_filterMap.mp hm
  obtain ⟨v, -, rfl⟩ := Option.map_eq_some_iff.mp hvalue
  refine hkeys key ?_
  have hkey := List.mem_map_of_mem (f := Prod.fst) hmem
  exact hkey

/-! ### Packages -/

/-- A warning has a reserved word exactly if its package has. -/
theorem infix_warning {w : List Char} (hw : w ∈ reserved) (p : String) (rest : List Char) :
    w <:+: warning P p ++ rest ↔ w <:+: p.toList ∨ w <:+: rest := by
  have hsentinel := sentinel_of_reserved hw
  have hblank : ' ' ∉ w := hsentinel.not_mem (by decide)
  have hslash : '/' ∉ w := hsentinel.not_mem (by decide)
  have hparen : ')' ∉ w := hsentinel.not_mem (by decide)
  have hnewline : '\n' ∉ w := hsentinel.not_mem (by decide)
  have htexts : ∀ w ∈ reserved, ¬ w <:+: "WARN: package".toList ∧
      ¬ w <:+: "is not installed (no /var/packages".toList ∧
      ¬ w <:+: " — skipping. Install via terraform `synology_core_package` first.".toList := by
    decide +kernel
  obtain ⟨hwarn, hnot, hskip⟩ := htexts w hw
  unfold warning
  simp only [List.append_assoc, List.cons_append, List.nil_append,
    infix_cut hsentinel.ne_nil hblank, infix_cut hsentinel.ne_nil hslash,
    infix_cut hsentinel.ne_nil hparen, infix_cut hsentinel.ne_nil hnewline, hwarn, hnot, hskip,
    false_or]
  constructor
  · rintro (hrepr | hname | hrest)
    · exact .inl (infix_of_pyStr hsentinel hrepr)
    · exact .inl hname
    · exact .inr hrest
  · rintro (hname | hrest)
    · exact .inr (.inl hname)
    · exact .inr (.inr hrest)

theorem infix_warnings {w : List Char} (hw : w ∈ reserved) (names : List String)
    (rest : List Char) :
    w <:+: names.flatMap (warning P) ++ rest ↔ (∃ p ∈ names, w <:+: p.toList) ∨ w <:+: rest := by
  induction names with
  | nil => simp
  | cons p names ih =>
    rw [List.flatMap_cons, List.append_assoc, infix_warning hw, ih, List.exists_mem_cons_iff,
      or_assoc]

/-- The packages that are to be started. -/
theorem ends_start_packages {drift : List String} {check : Bool} {dsm : Dsm}
    (h : (start_packages F drift check dsm).status = 0) :
    Ends (drift.map .str) (!drift.isEmpty) check (start_packages F drift check dsm) := by
  have hshown : ∀ key : String, (∀ c ∈ key.toList, c.isUpper = false) → ∀ w ∈ reserved,
      Mentions w (.obj [(key, .arr (drift.map .str))]) ↔ ∃ v ∈ drift.map Json.str, Mentions w v := by
    intro key hkey w hw
    rw [mentions_obj, List.exists_mem_cons_iff, mentions_arr,
      or_iff_right ((sentinel_of_reserved hw).absent hkey)]
    exact or_iff_left fun ⟨_, hnil, _⟩ => nomatch hnil
  unfold start_packages at h ⊢
  cases drift with
  | nil => exact ends_ok
  | cons p more =>
    cases check with
    | true =>
      refine ⟨rfl, rfl, fun w hw => ?_⟩
      show w <:+: line F "WOULD-CHANGE" _ ↔ _
      rw [infix_line (sentinel_of_reserved hw), hshown "start" (by decide) w hw]
      rfl
    | false =>
      have hne : ¬ (p :: more).isEmpty = true := Bool.false_ne_true
      rw [if_neg hne, if_neg Bool.false_ne_true] at h ⊢
      cases hfailed : notStarted (p :: more) dsm with
      | cons failed others =>
        rw [hfailed] at h
        exact absurd h Nat.one_ne_zero
      | nil =>
        refine ⟨rfl, rfl, fun w hw => ?_⟩
        show w <:+: line F "CHANGED" _ ↔ _
        rw [infix_line (sentinel_of_reserved hw), hshown "started" (by decide) w hw]
        rfl

theorem ends_package_state {packages : String} {desired : List String} {check : Bool} {dsm : Dsm}
    (hnames : packageNames F packages = some desired)
    (h : (do_package_state F P packages check dsm).status = 0) :
    Ends ((missing desired dsm ++ stopped desired dsm).map .str) (!(stopped desired dsm).isEmpty)
      check (do_package_state F P packages check dsm) := by
  unfold do_package_state at h ⊢
  rw [hnames] at h ⊢
  have hends : Ends _ _ check (start_packages F (stopped desired dsm) check dsm) :=
    ends_start_packages h
  refine ⟨hends.found, hends.changed, fun w hw => ?_⟩
  show w <:+: (missing desired dsm).flatMap (warning P) ++
    (start_packages F (stopped desired dsm) check dsm).out ↔ _
  rw [infix_warnings hw, hends.out w hw, List.map_append]
  have hmissing : (∃ p ∈ missing desired dsm, w <:+: p.toList) ↔
      ∃ v ∈ (missing desired dsm).map Json.str, Mentions w v := by
    simp only [List.mem_map, exists_exists_and_eq_and, mentions_str]
  rw [hmissing, or_left_comm]
  refine or_congr_right ?_
  simp only [List.mem_append, or_and_right, exists_or]

/-- **A run that exits 0.** -/
theorem run_ends {cmd : Command} {check : Bool} {dsm : Dsm}
    (h : (run F P cmd check dsm).status = 0) :
    Ends (cmd.shown F dsm) (cmd.drifts F dsm) check (run F P cmd check dsm) := by
  cases cmd with
  | network a => exact ends_apply_full (network_keys a) h
  | package_defaults install_volume =>
    refine ends_apply_checked (fun m hm => ?_) h
    rw [List.mem_singleton.mp hm]
    show ∀ c ∈ "default_vol".toList, c.isUpper = false
    decide
  | ntp server enabled =>
    have hkeys : ∀ m ∈ ntpDesired server, ∀ c ∈ m.1.toList, c.isUpper = false := by
      intro m hm
      rcases List.mem_cons.mp hm with rfl | hm
      · show ∀ c ∈ "enable_ntp".toList, c.isUpper = false
        decide
      · rw [List.mem_singleton.mp hm]
        show ∀ c ∈ "server".toList, c.isUpper = false
        decide
    have h : (do_ntp F server enabled check dsm).status = 0 := h
    show Ends _ _ _ (do_ntp F server enabled check dsm)
    unfold do_ntp at h ⊢
    by_cases henabled : pyBool enabled = true
    · rw [if_pos henabled] at h ⊢
      exact ends_apply_checked hkeys h
    · rw [if_neg henabled] at h
      exact absurd h Nat.one_ne_zero
  | package_state packages =>
    have h : (do_package_state F P packages check dsm).status = 0 := h
    show Ends (Command.shown F (.package_state packages) dsm)
      (Command.drifts F (.package_state packages) dsm) _ (do_package_state F P packages check dsm)
    cases hnames : packageNames F packages with
    | none =>
      unfold do_package_state at h
      rw [hnames] at h
      exact absurd h Nat.one_ne_zero
    | some desired =>
      have hends := ends_package_state hnames h
      simp only [Command.shown, Command.drifts, hnames]
      exact hends

/-! ### How the role reads it -/

/-- The words tell how the run ended: none says that it failed, one of them that it has changed
something, and one that it was only to check and has found drift. -/
structure Classified (check : Bool) (run : Run) : Prop where
  no_fail : ¬ "FAIL".toList <:+: run.out
  changed : "CHANGED".toList <:+: run.out ↔ run.changed = true
  would_change : "WOULD-CHANGE".toList <:+: run.out ↔ check = true ∧ run.found = true

/-- The word of a run that ends well is one of the reserved ones as it should be. -/
theorem infix_verdict (drifts check : Bool) :
    ¬ "FAIL".toList <:+: verdict drifts check ∧
      ("CHANGED".toList <:+: verdict drifts check ↔ (drifts && !check) = true) ∧
      ("WOULD-CHANGE".toList <:+: verdict drifts check ↔ check = true ∧ drifts = true) := by
  cases drifts with
  | false =>
    cases check with
    | false => decide
    | true => decide
  | true =>
    cases check with
    | false => decide
    | true => decide

/-- The words tell how a run ended that exits 0, exactly when the values that it prints have none of
them but the one that is true of it. -/
theorem classified_iff (F : PyFloats) (P : Printable) (cmd : Command) (check : Bool) (dsm : Dsm)
    (h : (run F P cmd check dsm).status = 0) :
    Classified check (run F P cmd check dsm) ↔
      ∀ v ∈ cmd.shown F dsm, ¬ Mentions "FAIL".toList v ∧
        (Mentions "CHANGED".toList v → check = false ∧ cmd.drifts F dsm = true) ∧
        (Mentions "WOULD-CHANGE".toList v → check = true ∧ cmd.drifts F dsm = true) := by
  have hends := run_ends h
  obtain ⟨hfail, hchanged, hwould⟩ := infix_verdict (cmd.drifts F dsm) check
  have hout := hends.out
  rw [Bool.and_eq_true, Bool.not_eq_true'] at hchanged
  constructor
  · rintro ⟨hno, hc, hw⟩ v hv
    rw [hends.changed, Bool.and_eq_true, Bool.not_eq_true'] at hc
    rw [hends.found] at hw
    refine ⟨fun hm => ?_, fun hm => ?_, fun hm => ?_⟩
    · exact hno ((hout _ (by decide)).mpr (.inr ⟨v, hv, hm⟩))
    · exact (hc.mp ((hout _ (by decide)).mpr (.inr ⟨v, hv, hm⟩))).symm
    · exact hw.mp ((hout _ (by decide)).mpr (.inr ⟨v, hv, hm⟩))
  · intro hclean
    refine ⟨fun hin => ?_, ?_, ?_⟩
    · rcases (hout _ (by decide)).mp hin with hverdict | ⟨v, hv, hm⟩
      · exact hfail hverdict
      · exact (hclean v hv).1 hm
    · rw [hends.changed, Bool.and_eq_true, Bool.not_eq_true', hout _ (by decide), hchanged]
      refine or_iff_left_of_imp ?_
      rintro ⟨v, hv, hm⟩
      exact ((hclean v hv).2.1 hm).symm
    · rw [hends.found, hout _ (by decide), hwould]
      refine or_iff_left_of_imp ?_
      rintro ⟨v, hv, hm⟩
      exact (hclean v hv).2.2 hm

/-- Floats as JSON writes them, with small letters. -/
def halves : PyFloats where
  toFloats := FullObject.half
  repr_small _ := by
    show ∀ c ∈ "0.5".toList, c.isUpper = false
    decide

/-- A NAS that is renamed. -/
def renamed : Dsm where
  get := some [("success", .bool true), ("data", .obj [("server_name", .str "e4e-nas")])]
  set := some [("success", .bool true)]
  installed _ := true
  is_on _ := true
  start _ := ⟨0, "", "", true⟩

def rename : Command := .network ⟨some "NAS-FAILOVER", none, none, none, none, none⟩

theorem rename_succeeds : (run halves FullObject.ascii rename false renamed).status = 0 := by
  decide +kernel

/-- Its new name reads as a failure. -/
theorem rename_reads_as_failed :
    ¬ Classified false (run halves FullObject.ascii rename false renamed) := by
  intro h
  refine h.no_fail (((run_ends rename_succeeds).out _ (by decide)).mpr (.inr ?_))
  have hshown : Json.str "NAS-FAILOVER" ∈ rename.shown halves renamed :=
    List.mem_cons_of_mem _ List.mem_cons_self
  exact ⟨_, hshown, mentions_str.mpr (by decide +kernel)⟩

theorem classified_iff_rename :
    Classified false (run halves FullObject.ascii rename false renamed) ↔
      ∀ v ∈ rename.shown halves renamed, ¬ Mentions "FAIL".toList v ∧
        (Mentions "CHANGED".toList v → false = false ∧ rename.drifts halves renamed = true) ∧
        (Mentions "WOULD-CHANGE".toList v → false = true ∧ rename.drifts halves renamed = true) :=
  classified_iff halves FullObject.ascii rename false renamed rename_succeeds

end ApplyDsmSystem
