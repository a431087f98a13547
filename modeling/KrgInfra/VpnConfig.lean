/-
The OpenVPN settings: `apply_vpn.py openvpn`.

DSM reads a flag back as 0 or 1 and wants a boolean written; it refuses the fields that it only
reports, and wants every other one in each call.  The command compares what is declared with what
is there in one form, and sends the fields of the contract with what is declared over them.

* `WRITE_FIELDS`, `FIELDS`, `convert` — the contract, what is declared, and the form of a value;
* `cmd_openvpn` — the command;
* `stored` — what DSM reports of a value that was written;
* `Contract` — what a call holds;
* `AsDeclared`, `Accepted` — an object that has what is declared, and what the command accepts;
* `openvpn_converges` — a call is made exactly where the object differs from what is declared; it
  keeps the contract, and a second run changes nothing.
-/
import KrgInfra.DecimalText
import KrgInfra.Dict
import KrgInfra.Json
import KrgInfra.Python
import Mathlib.Data.List.ReduceOption

namespace ApplyVpn

open Json Python

/-- `int` of a text, and `str` of a float, a list or a dictionary. -/
structure Builtins where
  int : String → Option ℤ
  repr : Json → String

/-- `flag` is read as 0 or 1, and written as a boolean. -/
inductive Kind where
  | flag
  | bool
  | int
  | str
  deriving DecidableEq

def WRITE_FIELDS : List (String × Kind) :=
  [("serv_enable", .bool), ("serv_ip", .str), ("serv_range", .int), ("comp_enable", .flag),
    ("push_route_enable", .flag), ("tls_auth_key", .flag), ("verify_server_cn", .flag),
    ("auth_conn", .int), ("port", .int), ("protocol", .str), ("encryption", .str),
    ("authentication", .str), ("enable_ipv6_server", .flag), ("ipv6_prefix", .str),
    ("mssfix_value", .int)]

/-- Returned by `load` but rejected by `apply`. -/
def READ_ONLY_FIELDS : List String := ["serv_run", "no_inter_cert", "user_conf", "serv_type"]

/-- The field of a key of the spec. -/
def FIELDS : List (String × String) :=
  [("enabled", "serv_enable"), ("port", "port"), ("protocol", "protocol"), ("subnet", "serv_ip"),
    ("max_connections", "serv_range"), ("allow_lan", "push_route_enable"),
    ("ipv6", "enable_ipv6_server"), ("cipher", "encryption"), ("auth_digest", "authentication"),
    ("compression", "comp_enable"), ("tls_auth", "tls_auth_key")]

structure Args where
  enable : String
  port : String
  protocol : String
  subnet : String
  max_connections : String
  allow_lan : String
  ipv6 : String
  cipher : String
  auth_digest : String
  compression : String
  tls_auth : String

def spec (a : Args) : List (String × String) :=
  [("enabled", a.enable), ("port", a.port), ("protocol", a.protocol), ("subnet", a.subnet),
    ("max_connections", a.max_connections), ("allow_lan", a.allow_lan), ("ipv6", a.ipv6),
    ("cipher", a.cipher), ("auth_digest", a.auth_digest), ("compression", a.compression),
    ("tls_auth", a.tls_auth)]

/-- `{FIELDS[skey]: raw for skey, raw in spec.items()}` -/
def desired (a : Args) : Members :=
  (spec a).filterMap fun (skey, raw) => (FIELDS.lookup skey).map fun field => (field, .str raw)

/-- `WRITE_KIND.get(field, "str")` -/
def kindOf (field : String) : Kind := (WRITE_FIELDS.lookup field).getD .str

/-- `str(value)` -/
def strOf (p : Builtins) : Json → String
  | .str s => s
  | .int n => toString n
  | .bool b => if b then "True" else "False"
  | .null => "None"
  | other => p.repr other

/-- `int(value)`; `none` where it raises. -/
def intOf (p : Builtins) : Json → Option ℤ
  | .int n => some n
  | .bool b => some (if b then 1 else 0)
  | .float q => some (q.num.tdiv q.den)
  | .str s => p.int s
  | _ => none

/-- `value if isinstance(value, bool) else _bool(value)` -/
def boolOf (p : Builtins) : Json → Bool
  | .bool b => b
  | value => pyBool (strOf p value)

/-- A value in the form of its kind. -/
def convert (p : Builtins) (field : String) (value : Json) : Option Json :=
  match kindOf field with
  | .flag => some (.bool (boolOf p value))
  | .bool => some (.bool (boolOf p value))
  | .int => (intOf p value).map .int
  | .str => some (.str (strOf p value))

/-- Canonical form for comparison. -/
def _norm (p : Builtins) (field : String) (value : Json) : Option Json := convert p field value

/-- Value as DSM's `apply` wants it on the wire. -/
def _wire (p : Builtins) (field : String) (value : Json) : Option Json := convert p field value

/-- What `_load` returns: the object, or the code of the error, if it has one. -/
inductive Load where
  | raised
  | failed (code : Option ℤ)
  | items (current : Members)

/-- `Settings.Config apply`: the discriminator of the call, and the fields. -/
structure Apply where
  serv_type : String
  fields : Members

/-- How the command ends. -/
inductive Outcome where
  | raised
  | fail
  | no_change
  | would_change (drift : List String)
  | changed (drift : List String)

structure Ran where
  outcome : Outcome
  requests : List Apply

def unknown (a : Args) (current : Members) : List String :=
  (desired a).names.filter fun k => k ∉ current.names

/-- The fields that differ in normalised space; `none` where a value has no such form. -/
def drift (p : Builtins) (a : Args) (current : Members) : Option (List String) :=
  ((desired a).mapM fun (field, raw) => do
    let live ← _norm p field (current.get field)
    let want ← _norm p field raw
    return if pyEq live want then none else some field).map List.reduceOption

/-- The parameters of `_apply`, in the order of the contract; `none` where a field is missing or
has no such form. -/
def applyFields (p : Builtins) (merged : Members) : Option Members :=
  WRITE_FIELDS.mapM fun (field, _) => do
    let value ← merged.lookup field
    return (field, ← _wire p field value)

/-- `reply` is the `success` of the answer, `none` where it is no JSON. -/
def sendApply (fields : Option Members) (drift : List String) (reply : Option Bool) : Ran :=
  match fields, reply with
  | none, _ => ⟨.fail, []⟩
  | some fields, none => ⟨.raised, [⟨"openvpn", fields⟩]⟩
  | some fields, some false => ⟨.fail, [⟨"openvpn", fields⟩]⟩
  | some fields, some true => ⟨.changed drift, [⟨"openvpn", fields⟩]⟩

/-- The command, once the object is loaded. -/
def reconcile (p : Builtins) (a : Args) (check : Bool) (current : Members)
    (reply : Option Bool) : Ran :=
  if unknown a current ≠ [] then ⟨.fail, []⟩
  else
    match drift p a current with
    | none => ⟨.fail, []⟩
    | some [] => ⟨.no_change, []⟩
    | some (field :: more) =>
      if check then ⟨.would_change (field :: more), []⟩
      else sendApply (applyFields p (current.update (desired a))) (field :: more) reply

def cmd_openvpn (p : Builtins) (a : Args) (check : Bool) (load : Load) (reply : Option Bool) :
    Ran :=
  if boolOf p (.str a.allow_lan) then ⟨.fail, []⟩
  else
    match load with
    | .raised => ⟨.raised, []⟩
    -- without a code the object is taken for loaded, and is none
    | .failed none => ⟨.raised, []⟩
    | .failed (some _) => ⟨.fail, []⟩
    | .items current => reconcile p a check current reply

/-! ### What DSM keeps -/

/-- What DSM reports of a value that was written. -/
def stored : Kind → Json → Json
  | .flag, .bool b => .int (if b then 1 else 0)
  | _, value => value

/-- The documented types of what is reported. -/
def HasKind : Kind → Json → Prop
  | .flag, v => v = .int 0 ∨ v = .int 1
  | .bool, v => ∃ b, v = .bool b
  | .int, v => ∃ n, v = .int n
  | .str, v => ∃ s, v = .str s

/-- An object whose fields have their documented types; it may have other fields. -/
def Documented (live : Members) : Prop :=
  ∀ field kind v, (field, kind) ∈ WRITE_FIELDS → live.lookup field = some v → HasKind kind v

/-- The object after a call that succeeded: the fields that were written are those that were sent;
DSM may change what it only reports. -/
def Stores (r : Apply) (live' : Members) : Prop :=
  ∀ field kind, (field, kind) ∈ WRITE_FIELDS →
    live'.lookup field = (r.fields.lookup field).map (stored kind)

theorem mem_kindOf {field : String} {kind : Kind} (h : (field, kind) ∈ WRITE_FIELDS) :
    kindOf field = kind := by
  have hall : ∀ f ∈ WRITE_FIELDS, kindOf f.1 = f.2 := by decide
  exact hall _ h

/-- A flag that is read. -/
theorem boolOf_int (p : Builtins) (b : Bool) : boolOf p (.int (if b then 1 else 0)) = b := by
  cases b with
  | false =>
    show pyBool (toString (0 : ℤ)) = false
    decide +kernel
  | true =>
    show pyBool (toString (1 : ℤ)) = true
    decide +kernel

/-- What DSM reports of a value that was sent has the same form. -/
theorem convert_stored {p : Builtins} {field : String} {value w : Json}
    (h : convert p field value = some w) : convert p field (stored (kindOf field) w) = some w := by
  rw [convert] at h ⊢
  cases hkind : kindOf field with
  | flag =>
    rw [hkind] at h
    obtain rfl := Option.some.inj h
    exact congrArg (fun b => some (Json.bool b)) (boolOf_int p (boolOf p value))
  | bool =>
    rw [hkind] at h
    obtain rfl := Option.some.inj h
    rfl
  | int =>
    rw [hkind] at h
    obtain ⟨n, -, rfl⟩ := Option.map_eq_some_iff.mp h
    rfl
  | str =>
    rw [hkind] at h
    obtain rfl := Option.some.inj h
    rfl

/-- What DSM reports of a value that was sent has the documented type. -/
theorem hasKind_stored {p : Builtins} {field : String} {value w : Json}
    (h : convert p field value = some w) : HasKind (kindOf field) (stored (kindOf field) w) := by
  rw [convert] at h
  cases hkind : kindOf field with
  | flag =>
    rw [hkind] at h
    obtain rfl := Option.some.inj h
    cases hb : boolOf p value with
    | false => exact .inl rfl
    | true => exact .inr rfl
  | bool =>
    rw [hkind] at h
    obtain rfl := Option.some.inj h
    exact ⟨_, rfl⟩
  | int =>
    rw [hkind] at h
    obtain ⟨n, -, rfl⟩ := Option.map_eq_some_iff.mp h
    exact ⟨n, rfl⟩
  | str =>
    rw [hkind] at h
    obtain rfl := Option.some.inj h
    exact ⟨_, rfl⟩

/-- A value of the documented type is reported again as it was, when it is sent. -/
theorem stored_convert {p : Builtins} {field : String} {value : Json}
    (h : HasKind (kindOf field) value) :
    (convert p field value).map (stored (kindOf field)) = some value := by
  rw [convert]
  cases hkind : kindOf field with
  | flag =>
    rw [hkind] at h
    obtain rfl | rfl := h
    · exact congrArg (fun b => some (stored .flag (.bool b))) (boolOf_int p false)
    · exact congrArg (fun b => some (stored .flag (.bool b))) (boolOf_int p true)
  | bool =>
    rw [hkind] at h
    obtain ⟨b, rfl⟩ := h
    rfl
  | int =>
    rw [hkind] at h
    obtain ⟨n, rfl⟩ := h
    rfl
  | str =>
    rw [hkind] at h
    obtain ⟨s, rfl⟩ := h
    rfl

/-! ### What is sent -/

/-- What is declared, written out. -/
theorem desired_eq (a : Args) : desired a =
    [("serv_enable", .str a.enable), ("port", .str a.port), ("protocol", .str a.protocol),
      ("serv_ip", .str a.subnet), ("serv_range", .str a.max_connections),
      ("push_route_enable", .str a.allow_lan), ("enable_ipv6_server", .str a.ipv6),
      ("encryption", .str a.cipher), ("authentication", .str a.auth_digest),
      ("comp_enable", .str a.compression), ("tls_auth_key", .str a.tls_auth)] := rfl

theorem nodup_desired (a : Args) : (desired a).names.Nodup := by
  rw [desired_eq]
  simp only [Members.names, List.map_cons, List.map_nil]
  decide

/-- Every declared field can be written. -/
theorem mem_writable_of_desired {a : Args} {field : String} (h : field ∈ (desired a).names) :
    ∃ kind, (field, kind) ∈ WRITE_FIELDS := by
  have hall : ∀ field ∈ ["serv_enable", "port", "protocol", "serv_ip", "serv_range",
      "push_route_enable", "enable_ipv6_server", "encryption", "authentication", "comp_enable",
      "tls_auth_key"], ∃ f ∈ WRITE_FIELDS, f.1 = field := by decide
  rw [desired_eq] at h
  obtain ⟨⟨_, kind⟩, hmem, rfl⟩ := hall field h
  exact ⟨kind, hmem⟩

/-- The parameters hold every field of the contract, in its order, with its converted value. -/
theorem applyFields_spec {p : Builtins} {merged fields : Members}
    (h : applyFields p merged = some fields) :
    fields.names = WRITE_FIELDS.map Prod.fst ∧
      ∀ field kind, (field, kind) ∈ WRITE_FIELDS →
        ∃ value, merged.lookup field = some value ∧
          fields.lookup field = convert p field value := by
  have hmap : ∀ (contract : List (String × Kind)) (fields : Members),
      (contract.map Prod.fst).Nodup →
      (contract.mapM fun (field, _) => do
        let value ← merged.lookup field
        return (field, ← _wire p field value)) = some fields →
      fields.names = contract.map Prod.fst ∧
        ∀ field kind, (field, kind) ∈ contract →
          ∃ value, merged.lookup field = some value ∧
            fields.lookup field = convert p field value := by
    intro contract
    induction contract with
    | nil =>
      intro fields _ h
      obtain rfl := Option.some.inj h
      exact ⟨rfl, fun _ _ h => nomatch h⟩
    | cons entry contract ih =>
      intro fields hnodup h
      obtain ⟨first, kind⟩ := entry
      obtain ⟨hfirst, hnodup⟩ := List.nodup_cons.mp hnodup
      simp only [List.mapM_cons, Option.bind_eq_bind, Option.bind_eq_some_iff, Option.pure_def,
        Option.some.injEq] at h
      obtain ⟨_, ⟨value, hvalue, w, hw, rfl⟩, rest, hrest, rfl⟩ := h
      obtain ⟨hnames, hlookup⟩ := ih rest hnodup hrest
      refine ⟨congrArg (first :: ·) hnames, fun field kind' hmem => ?_⟩
      rw [Members.lookup_cons]
      obtain heq | hrest := List.mem_cons.mp hmem
      · obtain ⟨rfl, -⟩ := Prod.mk.inj heq
        exact ⟨value, hvalue, by rw [if_pos rfl]; exact hw.symm⟩
      · have hne : field ≠ first := fun heq =>
          hfirst (heq ▸ List.mem_map.mpr ⟨_, hrest, rfl⟩)
        rw [if_neg hne]
        exact hlookup field kind' hrest
  exact hmap WRITE_FIELDS fields (by decide) h

/-- What a call on a live object holds. -/
structure Contract (p : Builtins) (a : Args) (live : Members) (r : Apply) : Prop where
  names : r.fields.names = WRITE_FIELDS.map Prod.fst
  read_only : ∀ field ∈ READ_ONLY_FIELDS, field ∉ r.fields.names
  /-- Written, what is not declared is what it was. -/
  kept : ∀ field kind, (field, kind) ∈ WRITE_FIELDS → field ∉ (desired a).names →
    (r.fields.lookup field).map (stored kind) = live.lookup field
  declared : ∀ field raw, (field, raw) ∈ desired a →
    ∃ w, convert p field raw = some w ∧ r.fields.lookup field = some w
  push_route : r.fields.lookup "push_route_enable" = some (.bool false)

/-- The fields that are sent keep the contract. -/
theorem contract_of_applyFields {p : Builtins} {a : Args} {live fields : Members}
    (hlan : boolOf p (.str a.allow_lan) = false) (hlive : Documented live)
    (h : applyFields p (live.update (desired a)) = some fields) :
    Contract p a live ⟨"openvpn", fields⟩ := by
  obtain ⟨hnames, hlookup⟩ := applyFields_spec h
  have hoverlay := Members.lookup_update (nodup_desired a)
  have hdesired : ∀ field raw, (field, raw) ∈ desired a →
      fields.lookup field = convert p field raw := by
    intro field raw hmem
    have hname : field ∈ (desired a).names := List.mem_map.mpr ⟨_, hmem, rfl⟩
    have hraw : (desired a).lookup field = some raw := Dict.lookup_of_mem (nodup_desired a) hmem
    obtain ⟨kind, hkind⟩ := mem_writable_of_desired hname
    obtain ⟨value, hvalue, hfield⟩ := hlookup field kind hkind
    rw [hoverlay, if_pos hname, hraw] at hvalue
    rw [hfield, Option.some.inj hvalue]
  refine ⟨hnames, ?_, fun field kind hkind hnot => ?_, fun field raw hmem => ?_, ?_⟩
  · show ∀ field ∈ READ_ONLY_FIELDS, field ∉ fields.names
    rw [hnames]
    decide
  · obtain ⟨value, hvalue, hfield⟩ := hlookup field kind hkind
    rw [hoverlay, if_neg hnot] at hvalue
    have htyped : HasKind (kindOf field) value :=
      (mem_kindOf hkind).symm ▸ hlive field kind value hkind hvalue
    show (fields.lookup field).map (stored kind) = _
    rw [hfield, hvalue, ← mem_kindOf hkind]
    exact stored_convert htyped
  · -- every field of the contract was sent
    obtain ⟨kind, hkind⟩ := mem_writable_of_desired (List.mem_map.mpr ⟨_, hmem, rfl⟩)
    have hin : field ∈ fields.names := hnames ▸ List.mem_map.mpr ⟨_, hkind, rfl⟩
    rw [Members.mem_names_iff, hdesired field raw hmem] at hin
    obtain ⟨w, hw⟩ := Option.ne_none_iff_exists'.mp hin
    exact ⟨w, hw, (hdesired field raw hmem).trans hw⟩
  · show fields.lookup "push_route_enable" = _
    have hmem : ("push_route_enable", Json.str a.allow_lan) ∈ desired a := by simp [desired_eq]
    rw [hdesired _ _ hmem]
    exact congrArg (fun b => some (Json.bool b)) hlan

/-- Parameters can be made where every field of the contract is there, and has a form. -/
theorem applyFields_isSome {p : Builtins} {merged : Members}
    (h : ∀ field kind, (field, kind) ∈ WRITE_FIELDS →
      ∃ value, merged.lookup field = some value ∧ (convert p field value).isSome) :
    (applyFields p merged).isSome := by
  rw [applyFields]
  generalize WRITE_FIELDS = contract at h
  induction contract with
  | nil => rfl
  | cons entry contract ih =>
    obtain ⟨field, kind⟩ := entry
    obtain ⟨value, hvalue, hform⟩ := h field kind List.mem_cons_self
    obtain ⟨w, hw⟩ := Option.isSome_iff_exists.mp hform
    obtain ⟨rest, hrest⟩ := Option.isSome_iff_exists.mp
      (ih fun field kind hmem => h field kind (List.mem_cons_of_mem _ hmem))
    rw [List.mapM_cons, hrest]
    simp only [hvalue, _wire, hw, Option.bind_eq_bind, Option.bind_some, Option.pure_def,
      Option.isSome_some]

/-! ### What differs -/

/-- The object has what is declared. -/
def AsDeclared (p : Builtins) (a : Args) (live : Members) : Prop :=
  ∀ field raw, (field, raw) ∈ desired a → field ∈ live.names ∧
    ∃ w, convert p field (live.get field) = some w ∧ convert p field raw = some w

/-- A declared field in which the object differs. -/
def DiffersIn (p : Builtins) (a : Args) (live : Members) (field : String) : Prop :=
  ∃ raw, (field, raw) ∈ desired a ∧ convert p field (live.get field) ≠ convert p field raw

/-- What the command accepts: no route into the LAN, values that have a form, and an object with
every field of the contract. -/
structure Accepted (p : Builtins) (a : Args) (live : Members) : Prop where
  no_lan : boolOf p (.str a.allow_lan) = false
  formed : ∀ field raw, (field, raw) ∈ desired a → (convert p field raw).isSome
  complete : ∀ field kind, (field, kind) ∈ WRITE_FIELDS → field ∈ live.names

/-- A value of the documented type has a form. -/
theorem Documented.formed {live : Members} (h : Documented live) (p : Builtins) {field : String}
    {kind : Kind} (hkind : (field, kind) ∈ WRITE_FIELDS) {value : Json}
    (hvalue : live.lookup field = some value) : (convert p field value).isSome := by
  have htyped : HasKind (kindOf field) value :=
    (mem_kindOf hkind).symm ▸ h field kind value hkind hvalue
  have hstored := stored_convert (p := p) htyped
  cases hc : convert p field value with
  | none => rw [hc] at hstored; exact nomatch hstored
  | some w => rfl

theorem eq_of_pyEq_bool {b c : Bool} (h : pyEq (.bool b) (.bool c) = true) : b = c := by
  revert h
  cases b <;> cases c <;> simp [pyEq, Json.number]

theorem eq_of_pyEq_int {m n : ℤ} (h : pyEq (.int m) (.int n) = true) : m = n := by
  simpa [pyEq, Json.number] using h

theorem eq_of_pyEq_str {s t : String} (h : pyEq (.str s) (.str t) = true) : s = t := by
  simpa [pyEq] using h

/-- Two values in the form of one field are equal for Python only if they are the same. -/
theorem eq_of_pyEq_convert {p : Builtins} {field : String} {v v' x y : Json}
    (hx : convert p field v = some x) (hy : convert p field v' = some y)
    (h : pyEq x y = true) : x = y := by
  rw [convert] at hx hy
  cases hkind : kindOf field with
  | flag =>
    rw [hkind] at hx hy
    obtain rfl := Option.some.inj hx
    obtain rfl := Option.some.inj hy
    rw [eq_of_pyEq_bool h]
  | bool =>
    rw [hkind] at hx hy
    obtain rfl := Option.some.inj hx
    obtain rfl := Option.some.inj hy
    rw [eq_of_pyEq_bool h]
  | int =>
    rw [hkind] at hx hy
    obtain ⟨m, -, rfl⟩ := Option.map_eq_some_iff.mp hx
    obtain ⟨n, -, rfl⟩ := Option.map_eq_some_iff.mp hy
    rw [eq_of_pyEq_int h]
  | str =>
    rw [hkind] at hx hy
    obtain rfl := Option.some.inj hx
    obtain rfl := Option.some.inj hy
    rw [eq_of_pyEq_str h]

/-- The drift that is reported: every value compared has a form, and the fields that are named
are those that differ. -/
theorem drift_spec {p : Builtins} {a : Args} {current : Members} {l : List String}
    (h : drift p a current = some l) :
    (∀ field raw, (field, raw) ∈ desired a →
      (convert p field (current.get field)).isSome ∧ (convert p field raw).isSome) ∧
    ∀ field, field ∈ l ↔ DiffersIn p a current field := by
  unfold DiffersIn
  rw [drift] at h
  generalize desired a = entries at h ⊢
  obtain ⟨marks, hmarks, rfl⟩ := Option.map_eq_some_iff.mp h
  clear h
  induction entries generalizing marks with
  | nil =>
    obtain rfl := Option.some.inj hmarks
    simp
  | cons entry entries ih =>
    obtain ⟨first, raw⟩ := entry
    simp only [_norm, List.mapM_cons, Option.bind_eq_bind, Option.bind_eq_some_iff,
      Option.pure_def, Option.some.injEq] at hmarks
    obtain ⟨mark, ⟨live, hlive, want, hwant, rfl⟩, rest, hrest, rfl⟩ := hmarks
    obtain ⟨hformed, hnamed⟩ := ih rest hrest
    have hfirst : pyEq live want = true ↔ live = want :=
      ⟨eq_of_pyEq_convert hlive hwant, fun he => he ▸ pyEq_refl _⟩
    refine ⟨fun field raw' hmem => ?_, fun field => ?_⟩
    · obtain heq | hmem := List.mem_cons.mp hmem
      · obtain ⟨rfl, rfl⟩ := Prod.mk.inj heq
        exact ⟨Option.isSome_iff_exists.mpr ⟨_, hlive⟩, Option.isSome_iff_exists.mpr ⟨_, hwant⟩⟩
      · exact hformed field raw' hmem
    · have hcons : (∃ raw', (field, raw') ∈ (first, raw) :: entries ∧
          convert p field (current.get field) ≠ convert p field raw') ↔
          (field = first ∧ live ≠ want) ∨ ∃ raw', (field, raw') ∈ entries ∧
            convert p field (current.get field) ≠ convert p field raw' := by
        constructor
        · rintro ⟨raw', hmem, hne⟩
          obtain heq | hmem := List.mem_cons.mp hmem
          · obtain ⟨rfl, rfl⟩ := Prod.mk.inj heq
            exact .inl ⟨rfl, fun he => hne (by rw [hlive, hwant, he])⟩
          · exact .inr ⟨raw', hmem, hne⟩
        · rintro (⟨rfl, hne⟩ | ⟨raw', hmem, hne⟩)
          · refine ⟨raw, List.mem_cons_self, ?_⟩
            rw [hlive, hwant]
            exact fun he => hne (Option.some.inj he)
          · exact ⟨raw', List.mem_cons_of_mem _ hmem, hne⟩
      rw [hcons, ← hnamed field]
      by_cases heq : pyEq live want = true
      · rw [if_pos heq, List.reduceOption_cons_of_none]
        simp [hfirst.mp heq]
      · have hne : live ≠ want := fun he => heq (hfirst.mpr he)
        rw [if_neg heq, List.reduceOption_cons_of_some, List.mem_cons, and_iff_left hne]

theorem drift_isSome {p : Builtins} {a : Args} {current : Members}
    (h : ∀ field raw, (field, raw) ∈ desired a →
      (convert p field (current.get field)).isSome ∧ (convert p field raw).isSome) :
    ∃ l, drift p a current = some l := by
  rw [drift]
  generalize desired a = entries at h
  induction entries with
  | nil => exact ⟨_, rfl⟩
  | cons entry entries ih =>
    obtain ⟨field, raw⟩ := entry
    obtain ⟨hlive, hwant⟩ := h field raw List.mem_cons_self
    obtain ⟨live, hlive⟩ := Option.isSome_iff_exists.mp hlive
    obtain ⟨want, hwant⟩ := Option.isSome_iff_exists.mp hwant
    obtain ⟨l, hl⟩ := ih fun field raw hmem => h field raw (List.mem_cons_of_mem _ hmem)
    obtain ⟨marks, hmarks, -⟩ := Option.map_eq_some_iff.mp hl
    rw [List.mapM_cons, hmarks]
    simp only [_norm, hlive, hwant, Option.bind_eq_bind, Option.bind_some, Option.pure_def,
      Option.map_some]
    exact ⟨_, rfl⟩

/-- Nothing differs exactly in an object that has what is declared. -/
theorem asDeclared_iff {p : Builtins} {a : Args} {live : Members}
    (hpresent : ∀ field ∈ (desired a).names, field ∈ live.names)
    (hformed : ∀ field raw, (field, raw) ∈ desired a →
      (convert p field (live.get field)).isSome ∧ (convert p field raw).isSome) :
    AsDeclared p a live ↔ ∀ field, ¬ DiffersIn p a live field := by
  constructor
  · rintro h field ⟨raw, hmem, hne⟩
    obtain ⟨-, w, hlive, hwant⟩ := h field raw hmem
    exact hne (hlive.trans hwant.symm)
  · intro h field raw hmem
    refine ⟨hpresent field (List.mem_map.mpr ⟨_, hmem, rfl⟩), ?_⟩
    obtain ⟨w, hw⟩ := Option.isSome_iff_exists.mp (hformed field raw hmem).2
    have hsame := not_not.mp fun hne => h field ⟨raw, hmem, hne⟩
    exact ⟨w, hsame.trans hw, hw⟩

/-! ### Runs -/

theorem unknown_nil {a : Args} {live : Members} :
    unknown a live = [] ↔ ∀ field ∈ (desired a).names, field ∈ live.names := by
  rw [unknown, List.filter_eq_nil_iff]
  simp

/-- What a run on an object does: it fails on what it does not accept, or it finds what is
declared, or the fields of the contract are to be sent. -/
theorem openvpn_cases (p : Builtins) (a : Args) {live : Members} (hlive : Documented live) :
    (¬ Accepted p a live ∧ ¬ (boolOf p (.str a.allow_lan) = false ∧ AsDeclared p a live) ∧
      ∀ check reply, cmd_openvpn p a check (.items live) reply = ⟨.fail, []⟩) ∨
    (AsDeclared p a live ∧
      ∀ check reply, cmd_openvpn p a check (.items live) reply = ⟨.no_change, []⟩) ∨
    boolOf p (.str a.allow_lan) = false ∧ ¬ AsDeclared p a live ∧
      ∃ drift, (∀ field, field ∈ drift ↔ DiffersIn p a live field) ∧ ∀ check reply,
        cmd_openvpn p a check (.items live) reply =
          if check then ⟨.would_change drift, []⟩
          else sendApply (applyFields p (live.update (desired a))) drift reply := by
  cases hlan : boolOf p (.str a.allow_lan) with
  | true =>
    refine .inl ⟨fun h => ?_, fun h => absurd h.1 (by simp), fun _ _ => if_pos hlan⟩
    exact absurd (hlan.symm.trans h.no_lan) (by simp)
  | false =>
    have hreconcile : ∀ check reply, cmd_openvpn p a check (.items live) reply =
        reconcile p a check live reply := fun _ _ => if_neg (by rw [hlan]; simp)
    simp only [hreconcile, reconcile]
    by_cases hunknown : unknown a live = []
    · simp only [if_neg (not_not.mpr hunknown)]
      have hpresent := unknown_nil.mp hunknown
      cases hdrift : drift p a live with
      | none =>
        -- a value has no conversion to the kind of its field
        have hnot : ¬ ∀ field raw, (field, raw) ∈ desired a →
            (convert p field (live.get field)).isSome ∧ (convert p field raw).isSome := by
          intro h
          obtain ⟨l, hl⟩ := drift_isSome h
          exact absurd (hl.symm.trans hdrift) (by simp)
        refine .inl ⟨fun h => hnot fun field raw hmem => ⟨?_, h.formed field raw hmem⟩,
          fun h => hnot fun field raw hmem => ?_, fun _ _ => rfl⟩
        · obtain ⟨kind, hkind⟩ := mem_writable_of_desired (List.mem_map.mpr ⟨_, hmem, rfl⟩)
          obtain ⟨value, hvalue⟩ := Option.ne_none_iff_exists'.mp
            (Members.mem_names_iff.mp (h.complete field kind hkind))
          rw [Members.get, hvalue, Option.getD_some]
          exact hlive.formed p hkind hvalue
        · obtain ⟨-, w, hw, hw'⟩ := h.2 field raw hmem
          exact ⟨Option.isSome_iff_exists.mpr ⟨w, hw⟩, Option.isSome_iff_exists.mpr ⟨w, hw'⟩⟩
      | some named =>
        obtain ⟨hformed, hnamed⟩ := drift_spec hdrift
        cases named with
        | nil =>
          refine .inr (.inl ⟨(asDeclared_iff hpresent hformed).mpr fun field h => ?_,
            fun _ _ => rfl⟩)
          exact absurd ((hnamed field).mpr h) List.not_mem_nil
        | cons field more =>
          refine .inr (.inr ⟨trivial, fun h => ?_, field :: more, hnamed, fun _ _ => rfl⟩)
          exact (asDeclared_iff hpresent hformed).mp h field
            ((hnamed field).mp List.mem_cons_self)
    · simp only [if_pos hunknown]
      have hmissing : ¬ ∀ field ∈ (desired a).names, field ∈ live.names :=
        fun h => hunknown (unknown_nil.mpr h)
      refine .inl ⟨fun h => hmissing fun field hmem => ?_, fun h => hmissing fun field hmem => ?_,
        fun _ _ => trivial⟩
      · obtain ⟨kind, hkind⟩ := mem_writable_of_desired hmem
        exact h.complete field kind hkind
      · obtain ⟨⟨_, raw⟩, hentry, rfl⟩ := List.mem_map.mp hmem
        exact (h.2 _ raw hentry).1

/-- What is declared is found: there is nothing to do. -/
theorem no_change_of_asDeclared {p : Builtins} {a : Args} {live : Members}
    (hlan : boolOf p (.str a.allow_lan) = false) (hlive : Documented live)
    (h : AsDeclared p a live) (check : Bool) (reply : Option Bool) :
    cmd_openvpn p a check (.items live) reply = ⟨.no_change, []⟩ := by
  obtain ⟨-, hnot, -⟩ | ⟨-, hnone⟩ | ⟨-, hnot, -⟩ := openvpn_cases p a hlive
  · exact absurd ⟨hlan, h⟩ hnot
  · exact hnone check reply
  · exact absurd h hnot

/-- What DSM reports of fields that keep the contract has the documented types, and has what is
declared. -/
theorem Contract.stored {p : Builtins} {a : Args} {live live' : Members} {r : Apply}
    (hlive : Documented live) (h : Contract p a live r) (hstores : Stores r live') :
    Documented live' ∧ AsDeclared p a live' := by
  have hdeclared : ∀ field raw, (field, raw) ∈ desired a → ∃ w, convert p field raw = some w ∧
      live'.lookup field = some (ApplyVpn.stored (kindOf field) w) := by
    intro field raw hmem
    obtain ⟨kind, hkind⟩ := mem_writable_of_desired (List.mem_map.mpr ⟨_, hmem, rfl⟩)
    obtain ⟨w, hw, hsent⟩ := h.declared field raw hmem
    refine ⟨w, hw, ?_⟩
    rw [hstores field kind hkind, hsent, Option.map_some, mem_kindOf hkind]
  constructor
  · intro field kind v hkind hv
    by_cases hname : field ∈ (desired a).names
    · obtain ⟨⟨_, raw⟩, hmem, rfl⟩ := List.mem_map.mp hname
      obtain ⟨w, hw, hlookup⟩ := hdeclared _ raw hmem
      obtain rfl := Option.some.inj (hlookup.symm.trans hv)
      rw [← mem_kindOf hkind]
      exact hasKind_stored hw
    · rw [hstores field kind hkind, h.kept field kind hkind hname] at hv
      exact hlive field kind v hkind hv
  · intro field raw hmem
    obtain ⟨w, hw, hlookup⟩ := hdeclared field raw hmem
    refine ⟨?_, w, ?_, hw⟩
    · rw [Members.mem_names_iff, hlookup]
      exact Option.some_ne_none _
    · rw [Members.get, hlookup, Option.getD_some]
      exact convert_stored hw

/-- What is sent can be made of every object that is accepted. -/
theorem Accepted.fields {p : Builtins} {a : Args} {live : Members} (hlive : Documented live)
    (h : Accepted p a live) : ∃ fields, applyFields p (live.update (desired a)) = some fields := by
  refine Option.isSome_iff_exists.mp (applyFields_isSome fun field kind hkind => ?_)
  rw [Members.lookup_update (nodup_desired a)]
  by_cases hname : field ∈ (desired a).names
  · obtain ⟨⟨_, raw⟩, hmem, rfl⟩ := List.mem_map.mp hname
    have hraw := Dict.lookup_of_mem (nodup_desired a) hmem
    exact ⟨raw, by rw [if_pos hname]; exact hraw, h.formed _ raw hmem⟩
  · obtain ⟨value, hvalue⟩ := Option.ne_none_iff_exists'.mp
      (Members.mem_names_iff.mp (h.complete field kind hkind))
    exact ⟨value, by rw [if_neg hname]; exact hvalue, hlive.formed p hkind hvalue⟩

/-- A run on an object with the documented types sends what the contract says; when it succeeds,
what is there then is as declared, and a second run finds nothing to change.  What is accepted is
called unchanged exactly where the object has it; else a dry run names the fields that differ, and
a run sends one call. -/
theorem openvpn_converges (p : Builtins) (a : Args) (check : Bool) (live : Members)
    (reply : Option Bool) (hlive : Documented live) :
    let ran := cmd_openvpn p a check (.items live) reply
    (∀ r ∈ ran.requests, r.serv_type = "openvpn" ∧ Contract p a live r) ∧
    (∀ drift, ran.outcome = .changed drift → ∃ r, ran.requests = [r] ∧
      ∀ live', Stores r live' → AsDeclared p a live' ∧ ∀ check' reply',
        cmd_openvpn p a check' (.items live') reply' = ⟨.no_change, []⟩) ∧
    (ran.outcome = .no_change → AsDeclared p a live ∧ ∀ check' reply',
      cmd_openvpn p a check' (.items live) reply' = ⟨.no_change, []⟩) ∧
    (Accepted p a live →
      (AsDeclared p a live → ran = ⟨.no_change, []⟩) ∧
      (¬ AsDeclared p a live → ∃ drift, (∀ field, field ∈ drift ↔ DiffersIn p a live field) ∧
        (check = true → ran = ⟨.would_change drift, []⟩) ∧
        (check = false → ∃ r, ran.requests = [r] ∧
          (reply = some true → ran.outcome = .changed drift)))) := by
  intro ran
  obtain ⟨hrejected, -, hfail⟩ | ⟨hsame, hnone⟩ | ⟨hlan, hnot, drift, hnamed, hsend⟩ :=
    openvpn_cases p a hlive
  · have hran : ran = ⟨.fail, []⟩ := hfail check reply
    rw [hran]
    exact ⟨by simp, by simp, by simp,
      fun h => absurd h hrejected⟩
  · have hran : ran = ⟨.no_change, []⟩ := hnone check reply
    rw [hran]
    exact ⟨by simp, by simp, fun _ => ⟨hsame, hnone⟩,
      fun _ => ⟨fun _ => rfl, fun hnot => absurd hsame hnot⟩⟩
  · have hran := hsend check reply
    cases check with
    | true =>
      rw [show ran = ⟨.would_change drift, []⟩ from hran]
      exact ⟨by simp, by simp, by simp,
        fun _ => ⟨fun h => absurd h hnot,
          fun _ => ⟨drift, hnamed, fun _ => rfl, by simp⟩⟩⟩
    | false =>
      have hran : ran = sendApply (applyFields p (live.update (desired a))) drift reply := hran
      cases hfields : applyFields p (live.update (desired a)) with
      | none =>
        rw [hfields] at hran
        rw [show ran = ⟨.fail, []⟩ from hran]
        refine ⟨by simp, by simp, by simp, fun h => ?_⟩
        obtain ⟨fields, hfields'⟩ := h.fields hlive
        exact absurd (hfields.symm.trans hfields') (by simp)
      | some fields =>
        have hcontract := contract_of_applyFields hlan hlive hfields
        have hone : ∀ r ∈ [(⟨"openvpn", fields⟩ : Apply)],
            r.serv_type = "openvpn" ∧ Contract p a live r :=
          fun r hr => List.mem_singleton.mp hr ▸ ⟨rfl, hcontract⟩
        rw [hfields] at hran
        cases reply with
        | none =>
          rw [show ran = ⟨.raised, [⟨"openvpn", fields⟩]⟩ from hran]
          exact ⟨hone, by simp, by simp, fun _ => ⟨fun h => absurd h hnot,
            fun _ => ⟨drift, hnamed, by simp, fun _ => ⟨_, rfl, by simp⟩⟩⟩⟩
        | some success =>
          cases success with
          | false =>
            rw [show ran = ⟨.fail, [⟨"openvpn", fields⟩]⟩ from hran]
            exact ⟨hone, by simp, by simp, fun _ => ⟨fun h => absurd h hnot,
              fun _ => ⟨drift, hnamed, by simp, fun _ => ⟨_, rfl, by simp⟩⟩⟩⟩
          | true =>
            rw [show ran = ⟨.changed drift, [⟨"openvpn", fields⟩]⟩ from hran]
            refine ⟨hone, fun _ _ => ⟨_, rfl, fun live' hstores => ?_⟩, by simp,
              fun _ => ⟨fun h => absurd h hnot,
                fun _ => ⟨drift, hnamed, by simp, fun _ => ⟨_, rfl, fun _ => rfl⟩⟩⟩⟩
            obtain ⟨hlive', hsame⟩ := hcontract.stored hlive hstores
            exact ⟨hsame, no_change_of_asDeclared hlan hlive' hsame⟩

/-- The object that was captured from the NAS. -/
def captured : Members :=
  [("auth_conn", .int 3), ("authentication", .str "SHA512"), ("comp_enable", .int 1),
    ("enable_ipv6_server", .int 0), ("encryption", .str "AUTO"), ("ipv6_prefix", .str ""),
    ("mssfix_value", .int 1450), ("no_inter_cert", .bool false), ("port", .int 1194),
    ("protocol", .str "udp"), ("push_route_enable", .int 0), ("serv_enable", .bool false),
    ("serv_ip", .str "10.8.0.0"), ("serv_range", .int 5), ("serv_run", .bool false),
    ("serv_type", .int 3), ("tls_auth_key", .int 0), ("user_conf", .bool false),
    ("verify_server_cn", .int 0)]

theorem documented_captured : Documented captured := by
  have hall : ∀ f ∈ WRITE_FIELDS, ∃ v, captured.lookup f.1 = some v ∧ HasKind f.2 v := by
    simp [WRITE_FIELDS, captured, HasKind, Members.lookup_cons]
  intro field kind v hmem hv
  obtain ⟨w, hw, hkind⟩ := hall _ hmem
  exact Option.some.inj (hv.symm.trans hw) ▸ hkind

/-- The spec of the NAS. -/
def declared : Args :=
  ⟨"True", "1194", "udp", "10.90.24.0", "20", "False", "False", "AUTO", "SHA512", "False", "True"⟩

/-- `int` of a text of digits. -/
def digits : Builtins :=
  ⟨fun s => DecimalText.integer s.toList, fun _ => ""⟩

/-- The object after the call. -/
def configured : Members :=
  [("auth_conn", .int 3), ("authentication", .str "SHA512"), ("comp_enable", .int 0),
    ("enable_ipv6_server", .int 0), ("encryption", .str "AUTO"), ("ipv6_prefix", .str ""),
    ("mssfix_value", .int 1450), ("no_inter_cert", .bool false), ("port", .int 1194),
    ("protocol", .str "udp"), ("push_route_enable", .int 0), ("serv_enable", .bool true),
    ("serv_ip", .str "10.90.24.0"), ("serv_range", .int 20), ("serv_run", .bool true),
    ("serv_type", .int 3), ("tls_auth_key", .int 1), ("user_conf", .bool false),
    ("verify_server_cn", .int 0)]

/-- The declared fields of the NAS, with their texts and with what these are sent as. -/
def declaredValues : List (String × String × Json) :=
  [("serv_enable", "True", .bool true), ("port", "1194", .int 1194),
    ("protocol", "udp", .str "udp"), ("serv_ip", "10.90.24.0", .str "10.90.24.0"),
    ("serv_range", "20", .int 20), ("push_route_enable", "False", .bool false),
    ("enable_ipv6_server", "False", .bool false), ("encryption", "AUTO", .str "AUTO"),
    ("authentication", "SHA512", .str "SHA512"), ("comp_enable", "False", .bool false),
    ("tls_auth_key", "True", .bool true)]

theorem convert_declared : ∀ f ∈ declaredValues, (f.1, Json.str f.2.1) ∈ desired declared ∧
    convert digits f.1 (.str f.2.1) = some f.2.2 ∧
    configured.lookup f.1 = some (stored (kindOf f.1) f.2.2) := by
  have htrue : pyBool "True" = true := by decide +kernel
  have hfalse : pyBool "False" = false := by decide +kernel
  have hport : digits.int "1194" = some 1194 := by decide +kernel
  have hrange : digits.int "20" = some 20 := by decide +kernel
  simp [declaredValues, desired_eq, declared, convert, kindOf, WRITE_FIELDS, boolOf, strOf, intOf,
    htrue, hfalse, hport, hrange, configured, stored, List.lookup_cons]

theorem accepted_declared : Accepted digits declared captured where
  no_lan := by decide +kernel
  formed := by
    have hall : ∀ entry ∈ desired declared, (convert digits entry.1 entry.2).isSome := by
      decide +kernel
    exact fun field raw hmem => hall _ hmem
  complete := by
    have hall : ∀ f ∈ WRITE_FIELDS, f.1 ∈ captured.names := by decide
    exact fun field kind hmem => hall _ hmem

/-- The captured object has room for five clients, and twenty are declared. -/
theorem not_asDeclared_captured : ¬ AsDeclared digits declared captured := by
  intro h
  have hmem : ("serv_range", Json.str "20") ∈ desired declared := by simp [desired_eq, declared]
  have hrange : digits.int "20" = some 20 := by decide +kernel
  obtain ⟨-, w, hlive, hwant⟩ := h _ _ hmem
  simp [convert, kindOf, WRITE_FIELDS, captured, Members.get, List.lookup_cons, intOf,
    hrange] at hlive hwant
  exact absurd (hlive.trans hwant.symm) (by simp)

/-- A call that keeps the contract leaves the object so. -/
theorem stores_configured {r : Apply} (h : Contract digits declared captured r) :
    Stores r configured := by
  intro field kind hkind
  by_cases hname : field ∈ (desired declared).names
  · have hvalues : ∀ field ∈ (desired declared).names, ∃ f ∈ declaredValues, f.1 = field := by
      decide
    obtain ⟨f, hf, rfl⟩ := hvalues field hname
    obtain ⟨hmem, hvalue, hlookup⟩ := convert_declared f hf
    obtain ⟨w, hw, hsent⟩ := h.declared _ _ hmem
    obtain rfl := Option.some.inj (hvalue.symm.trans hw)
    rw [hlookup, hsent, Option.map_some, mem_kindOf hkind]
  · have hkept : ∀ f ∈ WRITE_FIELDS, f.1 ∉ (desired declared).names →
        configured.lookup f.1 = captured.lookup f.1 := by
      simp [WRITE_FIELDS, desired_eq, declared, Members.names, configured, captured,
        List.lookup_cons]
    rw [h.kept field kind hkind hname]
    exact hkept _ hkind hname

/-- On the NAS the first run sends one call, and the second finds nothing to change. -/
theorem openvpn_converges_captured : Documented captured ∧ Accepted digits declared captured ∧
    (∃ r, (cmd_openvpn digits declared false (.items captured) (some true)).requests = [r] ∧
      Contract digits declared captured r ∧ Stores r configured) ∧
    cmd_openvpn digits declared false (.items configured) none = ⟨.no_change, []⟩ := by
  obtain ⟨hcontract, hchanged, -, haccepted⟩ :=
    openvpn_converges digits declared false captured (some true) documented_captured
  obtain ⟨drift, -, -, hsent⟩ := (haccepted accepted_declared).2 not_asDeclared_captured
  obtain ⟨r, hr, hreply⟩ := hsent rfl
  have hstores := stores_configured (hcontract r (hr ▸ List.mem_singleton_self r)).2
  obtain ⟨r', hr', hsecond⟩ := hchanged drift (hreply rfl)
  obtain rfl := List.singleton_inj.mp (hr.symm.trans hr')
  refine ⟨documented_captured, accepted_declared, ⟨r, hr, ?_, hstores⟩,
    (hsecond _ hstores).2 false none⟩
  exact (hcontract r (hr ▸ List.mem_singleton_self r)).2

end ApplyVpn
