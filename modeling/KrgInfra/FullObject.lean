/-
Settings that are read whole, overlaid and written back, in three helpers.

`synowebapi` reads the value of every parameter as JSON.  `apply_nfs.py` and `apply_security.py`
write the fields with `json.dumps`; `apply_smb.py` formats them, which leaves a string without its
quotes and writes a list or a dictionary with `repr`.  The name of a share is passed as it is.

* `read_arg`, `read_args` — the parameters, as they are read;
* `Nfs.args_from`, `Security.args_from`, `Smb.set_args` — the fields of the three helpers;
* `overlaid` — the fields that are meant;
* `fields_read_back` — when the fields that are read are these.
-/
import KrgInfra.JsonDumps

namespace FullObject

open JsonText

/-! ### Parameters -/

/-- `"{}={}".format(key, val)` -/
def arg (key : String) (text : List Char) : String := key ++ "=" ++ String.ofList text

/-- A parameter, up to its first `=`, and the value after it. -/
def read_arg (F : Floats) (a : String) : Option (String × Json) :=
  match a.toList.dropWhile (· ≠ '=') with
  | [] => none
  | _ :: text =>
    (loads (json F) text).map fun v => (String.ofList (a.toList.takeWhile (· ≠ '=')), v)

def read_args (F : Floats) (args : List String) : Option Members := args.mapM (read_arg F)

def isNull : Json → Bool
  | .null => true
  | _ => false

/-- The fields as parameters; those that are null are left out. -/
def encode (text : Json → List Char) (data : Members) : List String :=
  (data.filter fun m => !isNull m.2).map fun m => arg m.1 (text m.2)

/-- The current fields overlaid with those that are desired, without those that are null. -/
def overlaid (current desired : Members) : Members :=
  (current.update desired).filter fun m => !isNull m.2

/-! ### The helpers -/

/-- A value, as `_args_from` writes it. -/
def valueText (F : Floats) : Json → List Char
  | .bool b => if b then "true".toList else "false".toList
  | .int n => (toString n).toList
  | .float q => F.repr q
  | v => dumps F v

/-- `_args_from` of `apply_nfs.py` -/
def Nfs.args_from (F : Floats) (data : Members) : List String := encode (valueText F) data

/-- The parameters of the load call of `do_share_rules`. -/
def Nfs.load_params (share : String) : List String :=
  ["version=1", "method=load", "share_name=" ++ share]

/-- The parameters of its save call. -/
def Nfs.save_params (F : Floats) (share : String) (desired : Json) : List String :=
  ["version=1", "method=save", "share_name=" ++ share, arg "rule" (dumps F desired)]

/-- `_args_from` of `apply_security.py` -/
def Security.args_from (F : Floats) (data : Members) : List String := encode (valueText F) data

/-- `"{}".format(val)` of a value that is no boolean. -/
def formatText (F : Floats) (P : Printable) : Json → List Char
  | .bool b => if b then "true".toList else "false".toList
  | .str s => s.toList
  | v => print F (pyPrinter P) v

/-- The fields that `set_settings` of `apply_smb.py` passes. -/
def Smb.set_args (F : Floats) (P : Printable) (data : Members) : List String :=
  encode (formatText F P) data

/-! ### What is read of a field -/

variable {F : Floats} {P : Printable}

theorem takeWhile_ne {l : List Char} (h : '=' ∉ l) (rest : List Char) :
    (l ++ '=' :: rest).takeWhile (· ≠ '=') = l ∧
      (l ++ '=' :: rest).dropWhile (· ≠ '=') = '=' :: rest := by
  have hne : ∀ c ∈ l, decide (c ≠ '=') = true := fun c hc => decide_eq_true fun he => h (he ▸ hc)
  rw [List.takeWhile_append_of_pos hne, List.dropWhile_append_of_pos hne,
    List.takeWhile_cons_of_neg (by decide), List.dropWhile_cons_of_neg (by decide), List.append_nil]
  exact ⟨rfl, rfl⟩

/-- A field is read back if its name has no `=` and its value is read back. -/
theorem read_arg_iff {key : String} {text : List Char} {v : Json} :
    read_arg F (arg key text) = some (key, v) ↔
      '=' ∉ key.toList ∧ loads (json F) text = some v := by
  have htext : (arg key text).toList = key.toList ++ '=' :: text := by
    rw [arg, String.toList_append, String.toList_append, List.append_assoc]
    exact congrArg (fun l => key.toList ++ '=' :: l) String.toList_ofList
  by_cases hkey : '=' ∈ key.toList
  · -- what is read of the name ends before its first `=`
    refine iff_of_false (fun h => ?_) fun h => h.1 hkey
    obtain ⟨before, after, hsplit, hbefore⟩ := List.eq_append_cons_of_mem hkey
    rw [read_arg, htext, hsplit, List.append_assoc, List.cons_append,
      (takeWhile_ne hbefore _).1, (takeWhile_ne hbefore _).2] at h
    obtain ⟨w, -, he⟩ := Option.map_eq_some_iff.mp h
    have hname : String.ofList before = key := (Prod.mk.inj he).1
    rw [← hname, String.toList_ofList] at hkey
    exact hbefore hkey
  · rw [read_arg, htext, (takeWhile_ne hkey text).1, (takeWhile_ne hkey text).2,
      String.ofList_toList]
    show (loads (json F) text).map _ = _ ↔ _
    rw [Option.map_eq_some_iff]
    constructor
    · rintro ⟨w, hw, he⟩
      exact ⟨hkey, (Prod.mk.inj he).2 ▸ hw⟩
    · rintro ⟨-, hv⟩
      exact ⟨v, hv, rfl⟩

theorem read_args_encode_iff (text : Json → List Char) (data : Members) :
    read_args F (encode text data) = some (data.filter fun m => !isNull m.2) ↔
      ∀ m ∈ data.filter (fun m => !isNull m.2),
        '=' ∉ m.1.toList ∧ loads (json F) (text m.2) = some m.2 := by
  rw [encode]
  generalize data.filter (fun m => !isNull m.2) = l
  induction l with
  | nil => exact iff_of_true rfl fun _ h => nomatch h
  | cons m l ih =>
    rw [List.forall_mem_cons, ← ih, List.map_cons, read_args, List.mapM_cons, ← read_arg_iff]
    constructor
    · intro h
      obtain ⟨m', hm', h⟩ := Option.bind_eq_some_iff.mp h
      obtain ⟨l', hl', h⟩ := Option.bind_eq_some_iff.mp h
      obtain ⟨rfl, rfl⟩ := List.cons.inj (Option.some_inj.mp h)
      exact ⟨hm', hl'⟩
    · rintro ⟨hm, hl⟩
      have hl : (l.map fun m => arg m.1 (text m.2)).mapM (read_arg F) = some l := hl
      rw [hm, hl]
      rfl

theorem valueText_eq_dumps (v : Json) : valueText F v = dumps F v := by
  cases v <;> rfl

/-- A value that `set_settings` writes as JSON: no string, and no list or dictionary with a part
that `repr` writes otherwise. -/
def Writable (P : Printable) : Json → Prop
  | .bool _ => True
  | .str _ => False
  | v => Ok (pyKnown P) v

theorem loads_formatText_iff {v : Json} (h : Wf F v) :
    loads (json F) (formatText F P v) = some v ↔ Writable P v := by
  cases v with
  | bool b => exact iff_of_true (by cases b <;> rfl) trivial
  | str s => exact iff_of_false (loads_ne_self s) id
  | null => exact loads_print_iff pyPrinter_spec h
  | int n => exact loads_print_iff pyPrinter_spec h
  | float q => exact loads_print_iff pyPrinter_spec h
  | arr items => exact loads_print_iff pyPrinter_spec h
  | obj members => exact loads_print_iff pyPrinter_spec h

theorem wf_overlaid {current desired : Members} (hcurrent : WfMembers F current)
    (hdesired : WfMembers F desired) : ∀ m ∈ overlaid current desired, Wf F m.2 := by
  intro m hm
  obtain h | h := Members.mem_update (List.mem_filter.mp hm).1
  · exact wfMembers_iff.mp hcurrent m h
  · exact wfMembers_iff.mp hdesired m h

/-! ### The three helpers -/

/-- What `_args_from` writes is read back, but for the names. -/
theorem read_args_from_iff {current desired : Members} (hcurrent : WfMembers F current)
    (hdesired : WfMembers F desired) :
    read_args F (encode (valueText F) (current.update desired)) = some (overlaid current desired) ↔
      ∀ m ∈ overlaid current desired, '=' ∉ m.1.toList := by
  have hiff := read_args_encode_iff (F := F) (valueText F) (current.update desired)
  refine hiff.trans (forall₂_congr fun m hm => and_iff_left ?_)
  rw [valueText_eq_dumps]
  exact loads_dumps (wf_overlaid hcurrent hdesired m hm)

theorem read_set_args_iff {current desired : Members} (hcurrent : WfMembers F current)
    (hdesired : WfMembers F desired) :
    read_args F (Smb.set_args F P (current.update desired)) = some (overlaid current desired) ↔
      ∀ m ∈ overlaid current desired, '=' ∉ m.1.toList ∧ Writable P m.2 := by
  have hiff := read_args_encode_iff (F := F) (formatText F P) (current.update desired)
  refine hiff.trans (forall₂_congr fun m hm => and_congr_right fun _ => ?_)
  exact loads_formatText_iff (wf_overlaid hcurrent hdesired m hm)

/-- The name of a share is not what is read of it. -/
theorem read_share_ne (share : String) :
    read_arg F ("share_name=" ++ share) ≠ some ("share_name", .str share) := by
  have harg : "share_name=" ++ share = arg "share_name" share.toList := by
    rw [arg, String.ofList_toList]
    rfl
  rw [harg]
  exact fun h => loads_ne_self share (read_arg_iff.mp h).2

/-- What is read of a parameter has its name. -/
theorem read_arg_name {a key : String} {v : Json} (h : read_arg F a = some (key, v)) :
    key = String.ofList (a.toList.takeWhile (· ≠ '=')) := by
  rw [read_arg] at h
  split at h
  · exact nomatch h
  · obtain ⟨w, -, he⟩ := Option.map_eq_some_iff.mp h
    exact (Prod.mk.inj he).1.symm

theorem load_params_ne (share : String) :
    ∀ a ∈ Nfs.load_params share, read_arg F a ≠ some ("share_name", .str share) := by
  simp only [Nfs.load_params, List.forall_mem_cons]
  refine ⟨fun h => ?_, fun h => ?_, read_share_ne share, fun _ h => nomatch h⟩
  · exact absurd (read_arg_name h) (by decide)
  · exact absurd (read_arg_name h) (by decide)

theorem save_params_ne (share : String) (rules : Json) :
    ∀ a ∈ Nfs.save_params F share rules, read_arg F a ≠ some ("share_name", .str share) := by
  simp only [Nfs.save_params, List.forall_mem_cons]
  refine ⟨fun h => ?_, fun h => ?_, read_share_ne share, fun h => ?_, fun _ h => nomatch h⟩
  · exact absurd (read_arg_name h) (by decide)
  · exact absurd (read_arg_name h) (by decide)
  · have hname := read_arg_name h
    rw [arg, String.toList_append, String.toList_append, String.toList_ofList,
      List.append_assoc] at hname
    have hrule : "share_name" = String.ofList "rule".toList :=
      hname.trans (congrArg String.ofList (takeWhile_ne (by decide) _).1)
    exact absurd hrule (by decide)

/-- The fields that are passed are read as they are meant: those of `apply_nfs.py` and
`apply_security.py` if no name has an `=`, those of `apply_smb.py` if besides no value is a string
and none has a part that `repr` does not write as JSON; and the name of a share never. -/
theorem fields_read_back (F : Floats) (P : Printable) :
    (∀ current desired : Members, WfMembers F current → WfMembers F desired →
      (read_args F (Nfs.args_from F (current.update desired)) = some (overlaid current desired) ↔
        ∀ m ∈ overlaid current desired, '=' ∉ m.1.toList) ∧
      (read_args F (Security.args_from F (current.update desired)) =
          some (overlaid current desired) ↔
        ∀ m ∈ overlaid current desired, '=' ∉ m.1.toList) ∧
      (read_args F (Smb.set_args F P (current.update desired)) = some (overlaid current desired) ↔
        ∀ m ∈ overlaid current desired, '=' ∉ m.1.toList ∧ Writable P m.2)) ∧
    ∀ (share : String) (rules : Json),
      (∀ a ∈ Nfs.load_params share, read_arg F a ≠ some ("share_name", .str share)) ∧
      ∀ a ∈ Nfs.save_params F share rules, read_arg F a ≠ some ("share_name", .str share) := by
  refine ⟨fun current desired hcurrent hdesired => ⟨?_, ?_, ?_⟩, fun share rules => ⟨?_, ?_⟩⟩
  · exact read_args_from_iff hcurrent hdesired
  · exact read_args_from_iff hcurrent hdesired
  · exact read_set_args_iff hcurrent hdesired
  · exact load_params_ne share
  · exact save_params_ne share rules

/-! ### A share and its settings -/

/-- One number with a fraction. -/
def half : Floats where
  repr _ := "0.5".toList
  read text := if text = "0.5".toList then some (1 / 2) else none
  isFloat q := q = 1 / 2
  read_repr h := by rw [if_pos rfl, h]
  read_letter h := by
    rw [if_neg]
    rintro rfl
    exact absurd (h '0' rfl).2 (by decide)
  repr_atom _ := by decide
  repr_head _ := ⟨'0', rfl, .inr (by decide)⟩
  repr_fraction _ := ⟨'.', by decide, .inl rfl⟩

/-- The printable characters of ASCII. -/
def ascii : Printable where
  isprintable c := 0x20 ≤ c.toNat && c.toNat ≤ 0x7E
  le_of_isprintable h := by
    rw [Bool.and_eq_true, decide_eq_true_eq] at h
    exact h.1

def smbSettings : Members :=
  [("enable_samba", .bool false), ("smb_min_protocol", .int 2), ("ratio", .float (1 / 2)),
    ("ports", .arr [.int 139, .int 445]), ("enable_adserver", .null)]

/-- Numbers, booleans and lists of numbers are read back. -/
theorem smb_fields_read_back :
    read_args half (Smb.set_args half ascii
      (smbSettings.update [("smb_min_protocol", .int 3)])) =
        some (overlaid smbSettings [("smb_min_protocol", .int 3)]) := by
  have hwf : WfMembers half smbSettings :=
    ⟨trivial, trivial, rfl, ⟨trivial, trivial, trivial⟩, trivial, trivial⟩
  refine ((fields_read_back half ascii).1 smbSettings [("smb_min_protocol", .int 3)] hwf
    ⟨trivial, trivial⟩).2.2.mpr fun m hm => ?_
  have hm : m ∈ ([("enable_samba", .bool false), ("smb_min_protocol", .int 3),
    ("ratio", .float (1 / 2)), ("ports", .arr [.int 139, .int 445])] : Members) := hm
  simp only [List.mem_cons, List.not_mem_nil, or_false] at hm
  obtain rfl | rfl | rfl | rfl := hm
  · exact ⟨by decide, trivial⟩
  · exact ⟨by decide, trivial⟩
  · exact ⟨by decide, trivial⟩
  · exact ⟨by decide, trivial, trivial, trivial⟩

/-- A workgroup that looks like a number, and a share: neither is read back as the string that it
is. -/
theorem strings_not_read_back :
    read_args half (Smb.set_args half ascii
      (Members.update [("workgroup", .str "123")] [("enable_samba", .bool true)])) ≠
        some (overlaid [("workgroup", .str "123")] [("enable_samba", .bool true)]) ∧
    ∀ a ∈ Nfs.load_params "data", read_arg half a ≠ some ("share_name", .str "data") := by
  refine ⟨fun h => ?_, load_params_ne "data"⟩
  have hcurrent : WfMembers half [("workgroup", .str "123")] := ⟨trivial, trivial⟩
  have hdesired : WfMembers half [("enable_samba", .bool true)] := ⟨trivial, trivial⟩
  have hread := (read_set_args_iff hcurrent hdesired).mp h
  exact (hread ("workgroup", .str "123") List.mem_cons_self).2

end FullObject
