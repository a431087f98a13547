/-
The files that shares, SMB and NFS can be compared in.

A check comes to the elements of a list one after the other, up to the first one that lacks a
member, which is caught: from there on the objects may be of any type.  Up to there every object
has to be of a type that the check can use.

* `handled_get_bind`, `handled_item_bind`, … — an access, and what comes after it;
* `NameFit`, `EnumFit`, `handled_diff_shares` — shares;
* `Known`, `SmbFit`, `handled_diff_smb` — SMB;
* `LiveRuleFit`, `RulesFit`, `ExportFit`, `handled_diff_nfs` — NFS.
-/
import KrgInfra.DriftCapture

namespace DriftReport

open PyObject Raising
open PyObject.Value (member memberOr)

variable {rt : Runtime} {α : Type}

/-! ### Accesses, and what comes after them -/

theorem handled_get_bind {value default : Value} {name : String} {f : Value → Except Exn α} :
    Handled Caught (value.get name default >>= f) ↔
      ∃ members, value = .dict members ∧ Handled Caught (f (memberOr members name default)) := by
  cases value with
  | dict members =>
    rw [Value.get, ok_bind]
    constructor
    · exact fun h => ⟨members, rfl, h⟩
    · rintro ⟨_, h, h'⟩
      exact Value.dict.inj h ▸ h'
  | _ =>
    constructor
    · exact fun h => absurd (handled_error.mp h) (not_caught_of_type (.inr rfl))
    · rintro ⟨_, h, -⟩
      cases h

theorem handled_item_bind {value : Value} {name : String} {f : Value → Except Exn α} :
    Handled Caught (value.item rt name >>= f) ↔ ∃ members, value = .dict members ∧
      ∀ found, member members name = some found → Handled Caught (f found) := by
  rw [handled_bind, handled_member]
  simp only [item_eq_ok_iff]
  constructor
  · rintro ⟨⟨members, rfl⟩, h⟩
    exact ⟨members, rfl, fun found hfound => h found ⟨members, rfl, hfound⟩⟩
  · rintro ⟨members, rfl, h⟩
    exact ⟨⟨members, rfl⟩, fun found ⟨_, hm, hfound⟩ => h found (Value.dict.inj hm ▸ hfound)⟩

theorem handled_iter_bind {value : Value} {f : List Value → Except Exn α} :
    Handled Caught (value.iter >>= f) ↔
      ∃ items, value.elements = some items ∧ Handled Caught (f items) := by
  rw [handled_bind, typed_handled (typed_iter value)]
  simp only [iter_eq_ok_iff]
  constructor
  · rintro ⟨⟨items, hitems⟩, h⟩
    exact ⟨items, hitems, h items hitems⟩
  · rintro ⟨items, hitems, h⟩
    exact ⟨⟨items, hitems⟩, fun _ h' => Option.some.inj (hitems.symm.trans h') ▸ h⟩

theorem handled_hash_bind {value : Value} {f : Key → Except Exn α} :
    Handled Caught (value.hash >>= f) ↔
      Hashable value ∧ ∀ key, value.hash = .ok key → Handled Caught (f key) := by
  rw [handled_bind, typed_handled (typed_hash value)]

/-- What comes after a strict computation does not depend on what it gives. -/
theorem typed_handled_bind {β : Type} {x : Except Exn α} {f : α → Except Exn β} {fits rest : Prop}
    (h : Typed x fits) (hf : ∀ a, Handled Caught (f a) ↔ rest) :
    Handled Caught (x >>= f) ↔ fits ∧ rest := by
  cases h with
  | ok a h => rw [ok_bind, hf, and_iff_right h]
  | error he h =>
    rw [error_bind, handled_error]
    exact ⟨fun hc => absurd hc (not_caught_of_type he), fun hf => absurd hf.1 h⟩

theorem handled_webapi_bind {raw : Value} {f : Value → Except Exn α} :
    Handled Caught (webapi_data rt raw >>= f) ↔
      AnswerFit rt raw ∧ ∀ data, Answers rt raw data → Handled Caught (f data) := by
  rw [handled_bind, handled_webapi_data]
  simp only [webapi_data_eq_ok_iff]

/-- An object has a member. -/
def Has (value : Value) (name : String) (found : Value) : Prop :=
  ∃ members, value = .dict members ∧ member members name = some found

theorem item_eq_ok {value found : Value} {name : String} :
    value.item rt name = .ok found ↔ Has value name found :=
  item_eq_ok_iff rt

/-! ### Shares -/

/-- The name of a share, and its key. -/
def NameOf (s : Value) (name : Key × Value) : Prop := Has s "name" name.2 ∧ name.2.hash = .ok name.1

/-- A share: its name, if it has one, can be an element of a set. -/
def NameFit (s : Value) : Prop :=
  ∃ members, s = .dict members ∧ ∀ name, member members "name" = some name → Hashable name

theorem keyed_eq_ok_iff {value : Value} {element : Key × Value} :
    keyed value = .ok element ↔ value = element.2 ∧ value.hash = .ok element.1 := by
  rw [keyed, bind_eq_ok_iff]
  constructor
  · rintro ⟨key, hkey, h⟩
    obtain rfl := Except.ok.inj h
    exact ⟨rfl, hkey⟩
  · rintro ⟨rfl, h⟩
    exact ⟨_, h, rfl⟩

theorem typed_keyed (value : Value) : Typed (keyed value) (Hashable value) :=
  (typed_hash value).map _

theorem handled_name {s : Value} : Handled Caught (s.item rt "name" >>= keyed) ↔ NameFit s := by
  rw [handled_item_bind]
  simp only [typed_handled (typed_keyed _)]
  exact Iff.rfl

theorem name_eq_ok_iff {s : Value} {name : Key × Value} :
    (s.item rt "name" >>= keyed) = .ok name ↔ NameOf s name := by
  simp only [bind_eq_ok_iff, keyed_eq_ok_iff, item_eq_ok]
  constructor
  · rintro ⟨_, hname, rfl, hkey⟩
    exact ⟨hname, hkey⟩
  · rintro ⟨hname, hkey⟩
    exact ⟨_, hname, rfl, hkey⟩

/-- A line that `strip` takes. -/
def IsLine (ln : Value) : Prop := IsStr ln ∨ ∃ b, ln = .bytes b

/-- A line in front of the names: no `N Listed:`. -/
def NoListing (ln : Value) : Prop :=
  ∃ s, ln = .str s ∧ ¬ "Listed:".toList <:+ (Python.strip s).toList

/-- An enumeration: lines, which are texts up to the one in front of the names. -/
def EnumFit (raw : Value) : Prop :=
  ∃ items, raw.elements = some items ∧ Along NoListing IsStr items ∧ ∀ ln ∈ items, IsLine ln

theorem typed_strip (ln : Value) : Typed (strip ln) (IsLine ln) := by
  cases ln with
  | str s => exact .ok _ (.inl ⟨s, rfl⟩)
  | bytes b => exact .ok _ (.inr ⟨b, rfl⟩)
  | _ =>
    refine .error (.inr rfl) ?_
    rintro (⟨_, h⟩ | ⟨_, h⟩)
    · exact nomatch h
    · exact nomatch h

theorem typed_names (items : List Value) :
    Typed (namesFrom true items) (∀ ln ∈ items, IsLine ln) := by
  induction items with
  | nil => exact .ok [] fun _ h => nomatch h
  | cons ln items ih =>
    rw [namesFrom]
    refine ((typed_strip ln).bind fun s _ => ?_).congr List.forall_mem_cons.symm
    exact ih.map _

/-- The loop, up to the line in front of the names. -/
theorem typed_listing (items : List Value) : Typed (namesFrom false items)
    (Along NoListing IsStr items ∧ ∀ ln ∈ items, IsLine ln) := by
  induction items with
  | nil => exact .ok [] ⟨trivial, fun _ h => absurd h List.not_mem_nil⟩
  | cons ln items ih =>
    rw [namesFrom]
    cases ln with
    | str s =>
      rw [strip, ok_bind, if_neg (by decide), endsListing, ok_bind]
      by_cases hlisting : "Listed:".toList <:+ (Python.strip s).toList
      · rw [decide_eq_true hlisting]
        refine (typed_names items).congr ?_
        rw [Along, List.forall_mem_cons]
        constructor
        · refine fun h => ⟨⟨⟨s, rfl⟩, ?_⟩, .inl ⟨s, rfl⟩, h⟩
          rintro ⟨t, ht, hno⟩
          exact absurd (Value.str.inj ht ▸ hlisting) hno
        · exact fun h => h.2.2
      · rw [decide_eq_false hlisting]
        refine ih.congr ?_
        rw [Along, List.forall_mem_cons]
        constructor
        · exact fun h => ⟨⟨⟨s, rfl⟩, fun _ => h.1⟩, .inl ⟨s, rfl⟩, h.2⟩
        · exact fun h => ⟨h.1.2 ⟨s, rfl, hlisting⟩, h.2.2⟩
    | bytes b =>
      rw [strip, ok_bind, if_neg (by decide), show endsListing (.bytes _) = .error .typeError from rfl]
      refine typed_error ?_
      rintro ⟨⟨⟨_, h⟩, -⟩, -⟩
      cases h
    | _ =>
      refine .error (.inr rfl) ?_
      rintro ⟨⟨⟨_, h⟩, -⟩, -⟩
      cases h

theorem handled_parse_enum {raw : Value} : Handled Caught (parse_enum raw) ↔ EnumFit raw := by
  rw [parse_enum, handled_iter_bind]
  simp only [typed_handled (typed_listing _)]
  exact Iff.rfl

/-- The names of an enumeration can be elements of a set. -/
theorem hashable_of_names {items : List Value} : ∀ {seen : Bool} {names : List Value},
    namesFrom seen items = .ok names → ∀ name ∈ names, Hashable name := by
  have hstrip : ∀ {ln s : Value}, strip ln = .ok s → Hashable s := by
    intro ln s h
    cases ln with
    | str t => exact Except.ok.inj h ▸ trivial
    | bytes b => exact Except.ok.inj h ▸ trivial
    | _ => exact nomatch h
  induction items with
  | nil =>
    intro seen names h
    rw [← Except.ok.inj h]
    exact fun _ h => nomatch h
  | cons ln items ih =>
    intro seen names h
    rw [namesFrom] at h
    obtain ⟨s, hs, hloop⟩ := bind_eq_ok_iff.mp h
    cases seen with
    | true =>
      obtain ⟨rest, hrest, hnames⟩ := bind_eq_ok_iff.mp hloop
      rw [← Except.ok.inj hnames]
      split_ifs
      · exact List.forall_mem_cons.mpr ⟨hstrip hs, ih hrest⟩
      · exact ih hrest
    | false =>
      obtain ⟨listing, -, hnames⟩ := bind_eq_ok_iff.mp hloop
      exact ih hnames

/-- The names that an enumeration lists, as a set. -/
def Listed (raw : Value) (live : List (Key × Value)) : Prop :=
  ∃ names elements, parse_enum raw = .ok names ∧
    List.Forall₂ (fun value element => value = element.2 ∧ value.hash = .ok element.1)
      names elements ∧ live = setOf elements

theorem handled_liveNames {raw : Value} : Handled Caught (liveNames raw) ↔ EnumFit raw := by
  rw [liveNames, handled_bind, handled_parse_enum]
  refine and_iff_left fun listed hlisted => ?_
  obtain ⟨items, -, hitems⟩ := bind_eq_ok_iff.mp hlisted
  refine (typed_handled ((Strict.mapM typed_keyed listed).map setOf)).mpr ?_
  exact hashable_of_names hitems

theorem liveNames_eq_ok_iff {raw : Value} {live : List (Key × Value)} :
    liveNames raw = .ok live ↔ Listed raw live := by
  simp only [liveNames, bind_eq_ok_iff, mapM_eq_ok_iff, keyed_eq_ok_iff]
  constructor
  · rintro ⟨names, hnames, elements, helements, h⟩
    exact ⟨names, elements, hnames, helements, (Except.ok.inj h).symm⟩
  · rintro ⟨names, elements, hnames, helements, rfl⟩
    exact ⟨names, hnames, elements, helements, rfl⟩

/-- The names can be sorted that are declared and not listed, and those that are listed and neither
declared nor automatic. -/
def PresenceFit (desired live : List (Key × Value)) : Prop :=
  Comparable ((without desired (live.map Prod.fst)).map Prod.snd) ∧
    Comparable ((without live (desired.map Prod.fst ++ AUTO_SHARES.map Key.str)).map Prod.snd)

theorem handled_diffNames {desired live : List (Key × Value)} :
    Handled Caught (diffNames desired live) ↔ PresenceFit desired live :=
  typed_handled ((typed_sorted Prod.snd _).bind fun _ _ => (typed_sorted Prod.snd _).map _)

/-- The files of the shares. -/
def SharesFit (spec : List (Value × Value)) (snap : Value) : Prop :=
  ∃ shares, (memberOr spec "shares" (.list [])).elements = some shares ∧
    Along (fun s => ∃ name, NameOf s name) NameFit shares ∧
    ∀ names, List.Forall₂ NameOf shares names → ∃ members, snap = .dict members ∧
      EnumFit (memberOr members "shares_raw" (.list [])) ∧
      ∀ live, Listed (memberOr members "shares_raw" (.list [])) live →
        PresenceFit (setOf names) live

theorem handled_diff_shares {spec : List (Value × Value)} {snap : Value} :
    Handled Caught (diff_shares rt (.dict spec) snap) ↔ SharesFit spec snap := by
  have hlive : ∀ (desired : List (Key × Value)) (raw : Value),
      Handled Caught (liveNames raw >>= diffNames desired) ↔
        EnumFit raw ∧ ∀ live, Listed raw live → PresenceFit desired live := by
    intro desired raw
    rw [handled_bind, handled_liveNames]
    simp only [liveNames_eq_ok_iff, handled_diffNames]
  rw [diff_shares, Value.get, ok_bind, handled_iter_bind]
  simp only [handled_each (fun _ => handled_name) fun _ _ => name_eq_ok_iff, handled_get_bind, hlive]
  exact Iff.rfl

/-! ### SMB -/

/-- A protocol that has a number. -/
def Known (name : Value) : Prop := ∃ s ∈ PROTO.map Prod.fst, name = .str s

theorem handled_protocol {name : Value} : Handled Caught (protocol rt name) ↔ Hashable name := by
  rw [protocol, handled_hash_bind]
  refine and_iff_left fun key _ => ?_
  cases key with
  | str s =>
    cases h : PROTO.lookup s with
    | none => simp [h, caught_keyError]
    | some n => simp [h]
  | _ => exact handled_error.mpr (caught_keyError _)

variable (rt) in
theorem protocol_returns_iff {name : Value} : (∃ n, protocol rt name = .ok n) ↔ Known name := by
  constructor
  · rintro ⟨n, h⟩
    obtain ⟨key, hkey, hn⟩ := bind_eq_ok_iff.mp h
    cases key with
    | str s =>
      cases hs : PROTO.lookup s with
      | none => simp [hs] at hn
      | some m => exact ⟨s, Dict.mem_keys_iff.mpr (by rw [hs]; nofun), hash_eq_str_iff.mp hkey⟩
    | _ => exact nomatch hn
  · rintro ⟨s, hs, rfl⟩
    have hlookup := Dict.mem_keys_iff.mp hs
    obtain ⟨m, hm⟩ := Option.ne_none_iff_exists'.mp hlookup
    refine ⟨.int m, bind_eq_ok_iff.mpr ⟨.str s, rfl, ?_⟩⟩
    simp [hm]

/-- The protocols of the section. -/
def minName (s : List (Value × Value)) : Value := memberOr s "min_protocol" (.str "SMB2")

def maxName (s : List (Value × Value)) : Value := memberOr s "max_protocol" (.str "SMB3")

/-- The files of SMB.  A protocol that has no number is caught, unless it cannot be looked up; DSM's
answer is only looked at where both have one. -/
def SmbFit (rt : Runtime) (spec : List (Value × Value)) (snap : Value) : Prop :=
  ∃ s, memberOr spec "smb" (.dict []) = .dict s ∧ Hashable (minName s) ∧
    (Known (minName s) → Hashable (maxName s) ∧
      (Known (maxName s) → ∃ members, snap = .dict members ∧
        AnswerFit rt (memberOr members "smb_raw" (.list [])) ∧
        ∀ live, Answers rt (memberOr members "smb_raw" (.list [])) live →
          ∃ data, live = .dict data))

/-- The fields of an answer are looked up one by one: it has to be an object. -/
theorem typed_fieldDrift (resource start : String) (live : Value) (field : String × Value)
    (desired : List (String × Value)) :
    Typed (fieldDrift resource start live (field :: desired)) (∃ members, live = .dict members) := by
  have hfields : ∀ field : String × Value, Typed (do
      let value ← live.get field.1 .null
      return (field, value)) (∃ members, live = .dict members) := fun field =>
    (typed_get live field.1 .null).map _
  refine ((Strict.mapM hfields _).map _).congr ?_
  exact ⟨fun h => h field List.mem_cons_self, fun h _ _ => h⟩

/-- What is done with the number of a protocol does not depend on it. -/
theorem handled_protocol_bind {name : Value} {f : Value → Except Exn α} {fits : Prop}
    (hf : ∀ n, Handled Caught (f n) ↔ fits) :
    Handled Caught (protocol rt name >>= f) ↔ Hashable name ∧ (Known name → fits) := by
  rw [handled_bind, handled_protocol, ← protocol_returns_iff rt]
  simp only [hf, forall_exists_index]

/-- The section is read, and what comes after it does not depend on what it wants. -/
theorem handled_smbDesired_bind {value : Value} {f : List (String × Value) → Except Exn α}
    {fits : Prop} (hf : ∀ field desired, Handled Caught (f (field :: desired)) ↔ fits) :
    Handled Caught (smbDesired rt value >>= f) ↔ ∃ s, value = .dict s ∧
      Hashable (minName s) ∧ (Known (minName s) → Hashable (maxName s) ∧
        (Known (maxName s) → fits)) := by
  cases value with
  | dict s =>
    simp only [smbDesired, Value.get, ok_bind, bind_assoc, pure_bind]
    rw [handled_protocol_bind fun _ => handled_protocol_bind fun _ => hf _ _]
    constructor
    · exact fun h => ⟨s, rfl, h⟩
    · rintro ⟨_, hs, h⟩
      exact Value.dict.inj hs ▸ h
  | _ =>
    constructor
    · exact fun h => absurd (handled_error.mp h) (not_caught_of_type (.inr rfl))
    · rintro ⟨_, h, -⟩
      cases h

theorem handled_diff_smb {spec : List (Value × Value)} {snap : Value} :
    Handled Caught (diff_smb rt (.dict spec) snap) ↔ SmbFit rt spec snap := by
  rw [diff_smb, Value.get, ok_bind, handled_smbDesired_bind fun field desired => ?_]
  · exact Iff.rfl
  · simp only [handled_get_bind, handled_webapi_bind, typed_handled (typed_fieldDrift _ _ _ _ _)]

/-! ### NFS -/

/-- The client of a rule. -/
def clientOf : Value → Value
  | .dict members => memberOr members "client" (.str "")
  | _ => .null

/-- Rules that can be compared: mappings that can be printed, with clients that can be sorted. -/
def RulesFit (rules : Value) : Prop :=
  ∃ items, rules.elements = some items ∧ (∀ r ∈ items, ∃ members, r = .dict members) ∧
    Comparable (items.map clientOf) ∧ ∀ r ∈ items, Printable r

/-- The clients of rules that are mappings. -/
theorem clients_of_mapM {items : List Value} {clients : List (Value × Value)}
    (h : (items.mapM fun r => do
      let client ← r.get "client" (.str "")
      return (client, r)) = .ok clients) : clients = items.map fun r => (clientOf r, r) := by
  have hall := mapM_eq_ok_iff.mp h
  clear h
  induction hall with
  | nil => rfl
  | @cons r client items clients hr _ ih =>
    obtain ⟨found, hfound, hclient⟩ := bind_eq_ok_iff.mp hr
    obtain ⟨members, rfl, rfl⟩ := get_eq_ok_iff.mp hfound
    rw [← Except.ok.inj hclient, ih]
    rfl

theorem typed_norm_rules (rules : Value) : Typed (_norm_rules rt rules) (RulesFit rules) := by
  have hclient : ∀ r : Value, Typed (do
      let client ← r.get "client" (.str "")
      return (client, r)) (∃ members, r = .dict members) := fun r =>
    (typed_get r "client" (.str "")).map _
  have hitems : ∀ items : List Value, Typed (do
      let clients ← items.mapM fun r => do
        let client ← r.get "client" (.str "")
        return (client, r)
      let ordered ← sorted Prod.fst clients
      dumps rt (.list (ordered.map Prod.snd))) ((∀ r ∈ items, ∃ members, r = .dict members) ∧
        Comparable (items.map clientOf) ∧ ∀ r ∈ items, Printable r) := by
    intro items
    refine (Strict.mapM hclient items).bind fun clients hclients => ?_
    obtain rfl := clients_of_mapM hclients
    have hsorted := typed_sorted Prod.fst (items.map fun r => (clientOf r, r))
    rw [List.map_map] at hsorted
    refine hsorted.bind fun ordered hordered => (typed_dumps rt _).congr ?_
    -- sorting keeps the rules
    have hperm : (ordered.map Prod.snd).Perm items := by
      rw [sorted] at hordered
      split_ifs at hordered
      rw [← Except.ok.inj hordered]
      refine ((List.perm_insertionSort _ _).map _).trans ?_
      simp [Function.comp_def]
    rw [Printable, printableItems_iff]
    exact forall_congr' fun r => imp_congr_left hperm.mem_iff
  rw [_norm_rules]
  refine ((typed_iter rules).bindDep fun items _ => hitems items).congr ?_
  simp only [iter_eq_ok_iff]
  exact Iff.rfl

/-- What the capture of a share says of it. -/
def LiveRule (rt : Runtime) (r : Value) (live : Key × Value) : Prop :=
  ∃ share load data, Has r "share" share ∧ Has r "load" load ∧ Answers rt load data ∧
    Has data "rule" live.2 ∧ share.hash = .ok live.1

/-- The capture of a share: an answer whose data is an object, and the name of the share can be a
key, if there are rules. -/
def LiveRuleFit (rt : Runtime) (r : Value) : Prop :=
  ∃ members, r = .dict members ∧ ∀ share, member members "share" = some share →
    ∀ load, member members "load" = some load → AnswerFit rt load ∧
      ∀ data, Answers rt load data → ∃ fields, data = .dict fields ∧
        ∀ rule, member fields "rule" = some rule → Hashable share

theorem handled_liveRule {r : Value} : Handled Caught (liveRule rt r) ↔ LiveRuleFit rt r := by
  rw [liveRule, handled_item_bind]
  refine exists_congr fun members => and_congr_right fun hr => ?_
  refine forall_congr' fun share => imp_congr_right fun _ => ?_
  subst hr
  simp only [handled_item_bind, handled_webapi_bind, handled_hash_bind, handled_pure]
  constructor
  · rintro ⟨_, hm, h⟩ load hload
    obtain rfl := Value.dict.inj hm
    obtain ⟨hfit, hrest⟩ := h load hload
    refine ⟨hfit, fun data hdata => ?_⟩
    obtain ⟨fields, hfields, hrule⟩ := hrest data hdata
    exact ⟨fields, hfields, fun rule h => (hrule rule h).1⟩
  · intro h
    refine ⟨members, rfl, fun load hload => ?_⟩
    obtain ⟨hfit, hrest⟩ := h load hload
    refine ⟨hfit, fun data hdata => ?_⟩
    obtain ⟨fields, hfields, hrule⟩ := hrest data hdata
    exact ⟨fields, hfields, fun rule h => ⟨hrule rule h, fun _ _ => trivial⟩⟩

theorem liveRule_eq_ok_iff {r : Value} {live : Key × Value} :
    liveRule rt r = .ok live ↔ LiveRule rt r live := by
  simp only [liveRule, bind_eq_ok_iff, item_eq_ok, webapi_data_eq_ok_iff]
  constructor
  · rintro ⟨share, hshare, load, hload, data, hdata, rule, hrule, key, hkey, h⟩
    obtain rfl := Except.ok.inj h
    exact ⟨share, load, data, hshare, hload, hdata, hrule, hkey⟩
  · rintro ⟨share, load, data, hshare, hload, hdata, hrule, hkey⟩
    exact ⟨share, hshare, load, hload, data, hdata, _, hrule, _, hkey, rfl⟩

theorem typed_concat (before : String) (value : Value) : Typed (concat before value) (IsStr value) :=
  (typed_textOf value).map _

/-- Two texts are made, and something is done where they differ. -/
theorem typed_unless_eq {x y : Except Exn String} {z : Except Exn (List D)} {p q r : Prop}
    (hx : Typed x p) (hy : Typed y q) (hz : Typed z r) :
    Typed (x >>= fun a => y >>= fun b => if a = b then pure [] else z) (p ∧ q ∧ (x ≠ y → r)) := by
  refine hx.bind fun a ha => hy.bind fun b hb => ?_
  rw [ha, hb]
  by_cases hab : a = b
  · rw [if_pos hab, hab]
    exact .ok [] fun h => absurd rfl h
  · rw [if_neg hab]
    exact hz.congr ⟨fun h _ => h, fun h => h fun he => hab (Except.ok.inj he)⟩

/-- The rules that DSM has for a key. -/
def rulesFor (live_rules : List (Key × Value)) (key : Key) : Value :=
  ((Dict.ofItems live_rules).lookup key).getD (.list [])

/-- An export that has a share: this can be a key, and its rules and the live ones can be compared;
where they are not printed alike, it is a text. -/
def SharedFit (rt : Runtime) (live_rules : List (Key × Value)) (members : List (Value × Value))
    (share : Value) : Prop :=
  ∃ key, share.hash = .ok key ∧ RulesFit (memberOr members "rules" (.list [])) ∧
    RulesFit (rulesFor live_rules key) ∧
    (_norm_rules rt (memberOr members "rules" (.list [])) ≠
      _norm_rules rt (rulesFor live_rules key) → IsStr share)

/-- An export, with or without a share. -/
def ExportFit (rt : Runtime) (live_rules : List (Key × Value)) (exp : Value) : Prop :=
  ∃ members, exp = .dict members ∧
    ∀ share, member members "share" = some share → SharedFit rt live_rules members share

theorem typed_diffExport {live_rules : List (Key × Value)} {members : List (Value × Value)}
    {share : Value} (h : member members "share" = some share) :
    Typed (diffExport rt (Dict.ofItems live_rules) (.dict members))
      (SharedFit rt live_rules members share) := by
  rw [diffExport, (item_eq_ok_iff rt).mpr ⟨members, rfl, h⟩, ok_bind, Value.get, ok_bind]
  refine (typed_hash share).bindDep fun key _ => ?_
  exact typed_unless_eq (typed_norm_rules _) (typed_norm_rules _) ((typed_concat _ _).map _)

theorem handled_diffExport {live_rules : List (Key × Value)} {exp : Value} :
    Handled Caught (diffExport rt (Dict.ofItems live_rules) exp) ↔ ExportFit rt live_rules exp := by
  constructor
  · intro h
    obtain ⟨members, rfl, -⟩ := handled_item_bind.mp h
    exact ⟨members, rfl, fun share hshare => (typed_handled (typed_diffExport hshare)).mp h⟩
  · rintro ⟨members, rfl, h⟩
    cases hshare : member members "share" with
    | none =>
      rw [diffExport, Value.item, hshare]
      exact handled_error.mpr (caught_keyError _)
    | some share => exact (typed_handled (typed_diffExport hshare)).mpr (h share hshare)

theorem diffExport_returns_iff {live_rules : List (Key × Value)} {exp : Value}
    (h : ExportFit rt live_rules exp) :
    (∃ found, diffExport rt (Dict.ofItems live_rules) exp = .ok found) ↔
      ∃ share, Has exp "share" share := by
  constructor
  · rintro ⟨found, hfound⟩
    obtain ⟨share, hshare, -⟩ := bind_eq_ok_iff.mp hfound
    exact ⟨share, item_eq_ok.mp hshare⟩
  · rintro ⟨share, members, rfl, hshare⟩
    obtain ⟨_, hm, hfit⟩ := h
    obtain rfl := Value.dict.inj hm
    exact (typed_diffExport hshare).ok_iff.mpr (hfit share hshare)

/-- The files of NFS. -/
def NfsFit (rt : Runtime) (spec : List (Value × Value)) (snap : Value) : Prop :=
  (∃ n, memberOr spec "nfs" (.dict []) = .dict n) ∧ ∃ members, snap = .dict members ∧
    AnswerFit rt (memberOr members "nfs_global_raw" (.list [])) ∧
    ∀ glive, Answers rt (memberOr members "nfs_global_raw" (.list [])) glive →
      (∃ data, glive = .dict data) ∧
      ∃ captured, (memberOr members "nfs_rules_raw" (.list [])).elements = some captured ∧
        Along (fun r => ∃ live, LiveRule rt r live) (LiveRuleFit rt) captured ∧
        ∀ live_rules, List.Forall₂ (LiveRule rt) captured live_rules →
          ∃ exports, (memberOr spec "exports" (.list [])).elements = some exports ∧
            Along (fun exp => ∃ share, Has exp "share" share) (ExportFit rt live_rules) exports

/-- The section is read, and what comes after it does not depend on what it wants. -/
theorem handled_nfsDesired_bind {value : Value} {f : List (String × Value) → Except Exn α}
    {fits : Prop} (hf : ∀ field desired, Handled Caught (f (field :: desired)) ↔ fits) :
    Handled Caught (nfsDesired value >>= f) ↔ (∃ n, value = .dict n) ∧ fits := by
  cases value with
  | dict n =>
    simp only [nfsDesired, Value.get, ok_bind, pure_bind]
    rw [hf]
    exact (and_iff_right ⟨n, rfl⟩).symm
  | _ =>
    constructor
    · exact fun h => absurd (handled_error.mp h) (not_caught_of_type (.inr rfl))
    · rintro ⟨⟨_, h⟩, -⟩
      cases h

theorem handled_diff_nfs {spec : List (Value × Value)} {snap : Value} :
    Handled Caught (diff_nfs rt (.dict spec) snap) ↔ NfsFit rt spec snap := by
  rw [diff_nfs, Value.get, ok_bind, handled_nfsDesired_bind fun first desired => ?_]
  · exact Iff.rfl
  · rw [handled_get_bind]
    refine exists_congr fun members => and_congr_right fun hsnap => ?_
    subst hsnap
    rw [handled_webapi_bind]
    refine and_congr_right fun _ => forall_congr' fun glive => imp_congr_right fun _ => ?_
    refine typed_handled_bind (typed_fieldDrift _ _ _ _ _) fun globals => ?_
    rw [Value.get, ok_bind, handled_iter_bind]
    simp only [handled_each (fun _ => handled_liveRule) fun _ _ => liveRule_eq_ok_iff, Value.get,
      ok_bind, handled_iter_bind]
    refine exists_congr fun captured => and_congr_right fun _ => and_congr_right fun _ => ?_
    refine forall_congr' fun live_rules => imp_congr_right fun _ => ?_
    refine exists_congr fun exports => and_congr_right fun _ => ?_
    exact handled_last (fun _ => handled_diffExport) fun _ => diffExport_returns_iff

end DriftReport
