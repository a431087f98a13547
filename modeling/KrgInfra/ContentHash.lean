/-
compose-reload's `content_hash`: one SHA-256 over a directory tree.

The hash is taken over the tree's files and links in the order of a sorted walk, each as its
relative path, a NUL, `F` and the file's bytes or `L` and the link's target, and a NUL.
Names and targets have no NUL in them, but a file's bytes may, so that the end of a file
and the start of the next entry cannot always be told apart.

* `walk` — the files and links in the order in which `os.walk` and the sorting put them;
* `walk_eq_of_mem` — the order depends on the tree alone, and on which links lead to
  directories;
* `framed_eq_cases` — how two lists of entries can be hashed alike;
* `content_hash_identifies_iff` — when the hashes of two trees tell whether they are the same.
-/
import Mathlib.Data.List.Sort
import Mathlib.Data.List.Lex
import Mathlib.Data.Prod.Lex

namespace Compose

/-! ### Trees -/

/-- A name in a directory, or the target of a link: its bytes. -/
abbrev Name := List UInt8

/-- A file tree of the Nix store, which holds nothing but regular files, links and
directories.  The entries of a directory stand in the order in which it is listed; `toDir`
says whether a link leads to a directory. -/
inductive FileTree where
  | file (data : List UInt8)
  | link (target : Name) (toDir : Bool)
  | dir (entries : List (Name × FileTree))

/-- What the walk of a tree comes to. -/
inductive Leaf where
  | file (data : List UInt8)
  | link (target : Name) (toDir : Bool)
  deriving DecidableEq, Repr

/-- What is hashed of it. -/
inductive Entry where
  | file (data : List UInt8)
  | link (target : Name)
  deriving DecidableEq, Repr

def Leaf.entry : Leaf → Entry
  | .file data => .file data
  | .link target _ => .link target

/-- Where `os.walk` lists an entry of a directory: among the files, or among the directories;
a link that leads to a directory is among these. -/
inductive Listed where
  | nondir
  | linkToDir
  | subdir
  deriving DecidableEq, Repr

/-- The files come first, the subdirectories last. -/
def Listed.place : Listed → ℕ
  | .nondir => 0
  | .linkToDir => 1
  | .subdir => 2

namespace FileTree

def listed : FileTree → Listed
  | .file _ => .nondir
  | .link _ toDir => if toDir then .linkToDir else .nondir
  | .dir _ => .subdir

/-- What holds of a directory if it does of all that is in it, holds of every tree. -/
@[elab_as_elim]
theorem induct {P : FileTree → Prop} (file : ∀ data, P (.file data))
    (link : ∀ target toDir, P (.link target toDir))
    (dir : ∀ entries : List (Name × FileTree), (∀ e ∈ entries, P e.2) → P (.dir entries)) :
    ∀ t, P t
  | .file data => file data
  | .link target toDir => link target toDir
  | .dir entries => dir entries (all entries)
where
  all : ∀ entries : List (Name × FileTree), ∀ e ∈ entries, P e.2
    | [], _, he => absurd he List.not_mem_nil
    | (_, t) :: entries, e, he => by
      rcases List.mem_cons.mp he with rfl | he
      · exact induct file link dir t
      · exact all entries e he

end FileTree

/-! ### The walk -/

/-- The key that names are sorted by. -/
def sortKey (name : Name) : List ℕ := name.map UInt8.toNat

/-- `sorted`, by the name; where the names can be encoded the order of their code points is
that of their bytes. -/
def sortByName {α : Type} (l : List (Name × α)) : List (Name × α) :=
  l.insertionSort fun a b => sortKey a.1 ≤ sortKey b.1

/-- The entries of one kind, sorted. -/
def ofKind {α : Type} (k : Listed) (l : List (Name × Listed × α)) : List (Name × Listed × α) :=
  sortByName (l.filter fun e => e.2.1 = k)

/-- The entries of a directory in the order of the walk: `sorted(files)`, the sorted links to
directories, and then the subdirectories. -/
def inOrder {α : Type} (l : List (Name × Listed × α)) : List (Name × Listed × α) :=
  ofKind .nondir l ++ ofKind .linkToDir l ++ ofKind .subdir l

mutual

/-- The files and links of a tree in the order of the walk, with their paths. -/
def walk : FileTree → List (List Name × Leaf)
  | .file data => [([], .file data)]
  | .link target toDir => [([], .link target toDir)]
  | .dir entries => (inOrder (walkAll entries)).flatMap fun e => e.2.2

def walkAll : List (Name × FileTree) → List (Name × Listed × List (List Name × Leaf))
  | [] => []
  | (name, t) :: entries =>
    (name, t.listed, (walk t).map fun r => (name :: r.1, r.2)) :: walkAll entries

end

/-- `os.path.join` of the names of a relative path. -/
def joined : List Name → List UInt8
  | [] => []
  | [name] => name
  | name :: other :: path => name ++ 47 :: joined (other :: path)

/-- The bytes of a file or link that go into the hash. -/
def frame : List Name × Entry → List UInt8
  | (path, .file data) => joined path ++ 0 :: 70 :: (data ++ [0])
  | (path, .link target) => joined path ++ 0 :: 76 :: (target ++ [0])

/-- Whether a byte continues a character. -/
def continues (b : UInt8) : Bool := 0x80 ≤ b && b < 0xC0

/-- Whether a name is UTF-8: only then can Python encode what it has decoded. -/
def isUtf8 : List UInt8 → Bool
  | [] => true
  | a :: rest =>
    if a < 0x80 then isUtf8 rest
    else
      match rest with
      | [] => false
      | b :: rest =>
        if 0xC2 ≤ a && a < 0xE0 then continues b && isUtf8 rest
        else
          match rest with
          | [] => false
          | c :: rest =>
            if 0xE0 ≤ a && a < 0xF0 then
              -- neither an overlong form nor a surrogate
              continues b && (a ≠ 0xE0 || 0xA0 ≤ b) && (a ≠ 0xED || b < 0xA0) && continues c &&
                isUtf8 rest
            else
              match rest with
              | [] => false
              | d :: rest =>
                0xF0 ≤ a && a < 0xF5 && continues b && (a ≠ 0xF0 || 0x90 ≤ b) &&
                  (a ≠ 0xF4 || b < 0x90) && continues c && continues d && isUtf8 rest

/-- Whether the path and the target can be encoded. -/
def encodable : List Name × Entry → Bool
  | (path, .file _) => path.all isUtf8
  | (path, .link target) => path.all isUtf8 && isUtf8 target

/-- What is hashed of a tree, in this order. -/
def listing (t : FileTree) : List (List Name × Entry) := (walk t).map fun r => (r.1, r.2.entry)

/-- `content_hash` of a file or a directory; `none` where it raises UnicodeEncodeError.  A
resolved path is no link. -/
def content_hash {δ : Type} (sha256 : List UInt8 → δ) : FileTree → Option δ
  | .file data => some (sha256 data)
  | .dir entries =>
    if (listing (.dir entries)).all encodable then
      some (sha256 ((listing (.dir entries)).flatMap frame))
    else none
  | .link _ _ => some (sha256 [])

/-! ### Valid trees -/

/-- What a file system takes for a name. -/
def ValidName (name : Name) : Prop := name ≠ [] ∧ 0 ∉ name ∧ 47 ∉ name

instance (name : Name) : Decidable (ValidName name) := inferInstanceAs (Decidable (_ ∧ _ ∧ _))

mutual

/-- The names of a directory are distinct, and no target holds a NUL. -/
def FileTree.Valid : FileTree → Prop
  | .file _ => True
  | .link target _ => 0 ∉ target
  | .dir entries => (entries.map Prod.fst).Nodup ∧ ValidAll entries

def ValidAll : List (Name × FileTree) → Prop
  | [] => True
  | (name, t) :: entries => ValidName name ∧ t.Valid ∧ ValidAll entries

end

theorem validAll_iff {entries : List (Name × FileTree)} :
    ValidAll entries ↔ ∀ e ∈ entries, ValidName e.1 ∧ e.2.Valid := by
  induction entries with
  | nil => simp [ValidAll]
  | cons e entries ih =>
    rw [ValidAll, ih, List.forall_mem_cons, and_assoc]

/-- A directory tree. -/
structure Directory where
  entries : List (Name × FileTree)
  valid : (FileTree.dir entries).Valid

namespace Directory

def tree (d : Directory) : FileTree := .dir d.entries

/-- Two trees have the same files and links, at the same paths. -/
def Same (d d' : Directory) : Prop := ∀ r, r ∈ listing d.tree ↔ r ∈ listing d'.tree

end Directory

/-! ### What the walk comes to -/

theorem walkAll_eq (entries : List (Name × FileTree)) :
    walkAll entries = entries.map fun e =>
      (e.1, e.2.listed, (walk e.2).map fun r => (e.1 :: r.1, r.2)) := by
  induction entries with
  | nil => rw [walkAll, List.map_nil]
  | cons e entries ih => rw [walkAll, ih, List.map_cons]

section Sorting

variable {α : Type} {l : List (Name × Listed × α)} {k : Listed}

theorem mem_ofKind {e : Name × Listed × α} : e ∈ ofKind k l ↔ e ∈ l ∧ e.2.1 = k := by
  rw [ofKind, sortByName, List.mem_insertionSort, List.mem_filter, decide_eq_true_eq]

theorem mem_inOrder {e : Name × Listed × α} : e ∈ inOrder l ↔ e ∈ l := by
  simp only [inOrder, List.mem_append, mem_ofKind]
  constructor
  · rintro ((h | h) | h) <;> exact h.1
  · intro h
    obtain ⟨name, k, x⟩ := e
    cases k with
    | nondir => exact .inl (.inl ⟨h, rfl⟩)
    | linkToDir => exact .inl (.inr ⟨h, rfl⟩)
    | subdir => exact .inr ⟨h, rfl⟩

/-- Of two entries of a directory the one with the smaller rank comes first. -/
def rank (e : Name × Listed × α) : ℕ ×ₗ List ℕ :=
  toLex (e.2.1.place, sortKey e.1)

theorem sortKey_injective : Function.Injective sortKey :=
  List.map_injective_iff.mpr fun _ _ => UInt8.toNat_inj.mp

theorem pairwise_ofKind (h : (l.map Prod.fst).Nodup) :
    (ofKind k l).Pairwise fun a b => rank a < rank b := by
  have hle : (ofKind k l).Pairwise fun a b => sortKey a.1 ≤ sortKey b.1 :=
    List.pairwise_insertionSort _ _
  have hperm : (ofKind k l).Perm (l.filter fun e => e.2.1 = k) := List.perm_insertionSort _ _
  have hne : (ofKind k l).Pairwise fun a b => a.1 ≠ b.1 := by
    have hnodup : ((l.filter fun e => e.2.1 = k).map Prod.fst).Nodup :=
      h.sublist (List.filter_sublist.map _)
    exact List.pairwise_map.mp ((hperm.map Prod.fst).nodup_iff.mpr hnodup)
  refine (hle.and hne).imp_of_mem fun {a b} ha hb h => ?_
  have hkind : a.2.1 = b.2.1 := (mem_ofKind.mp ha).2.trans (mem_ofKind.mp hb).2.symm
  rw [rank, rank, hkind, Prod.Lex.toLex_lt_toLex]
  exact .inr ⟨rfl, lt_of_le_of_ne h.1 fun heq => h.2 (sortKey_injective heq)⟩

/-- The order of the walk is by rank. -/
theorem pairwise_inOrder (h : (l.map Prod.fst).Nodup) :
    (inOrder l).Pairwise fun a b => rank a < rank b := by
  have hlt : ∀ {k k' : Listed}, (k = .nondir ∧ k' ≠ .nondir ∨ k = .linkToDir ∧ k' = .subdir) →
      ∀ a ∈ ofKind k l, ∀ b ∈ ofKind k' l, rank a < rank b := by
    intro k k' hkk a ha b hb
    rw [rank, rank, (mem_ofKind.mp ha).2, (mem_ofKind.mp hb).2, Prod.Lex.toLex_lt_toLex]
    left
    show k.place < k'.place
    rcases hkk with ⟨rfl, hk'⟩ | ⟨rfl, rfl⟩
    · cases k' with
      | nondir => exact absurd rfl hk'
      | linkToDir => decide
      | subdir => decide
    · decide
  rw [inOrder, List.pairwise_append, List.pairwise_append]
  refine ⟨⟨pairwise_ofKind h, pairwise_ofKind h, hlt (.inl ⟨rfl, by decide⟩)⟩, pairwise_ofKind h, ?_⟩
  intro a ha b hb
  rcases List.mem_append.mp ha with ha | ha
  · exact hlt (.inl ⟨rfl, by decide⟩) a ha b hb
  · exact hlt (.inr ⟨rfl, rfl⟩) a ha b hb

end Sorting

/-! ### The order of the walk -/

def Leaf.listed : Leaf → Listed
  | .file _ => .nondir
  | .link _ toDir => if toDir then .linkToDir else .nondir

/-- The key by which the walk orders what it comes to. -/
def order : List Name → Leaf → List (ℕ ×ₗ List ℕ)
  | [], _ => []
  | [name], l => [toLex (l.listed.place, sortKey name)]
  | name :: other :: path, l => toLex (Listed.subdir.place, sortKey name) :: order (other :: path) l

section Walk

variable {entries : List (Name × FileTree)} {t : FileTree} {path : List Name} {l l' : Leaf}

theorem mem_walk_dir {r : List Name × Leaf} : r ∈ walk (.dir entries) ↔
    ∃ e ∈ entries, ∃ q ∈ walk e.2, (e.1 :: q.1, q.2) = r := by
  rw [walk, List.mem_flatMap]
  constructor
  · rintro ⟨e', he', hr⟩
    rw [mem_inOrder, walkAll_eq] at he'
    obtain ⟨e, he, rfl⟩ := List.mem_map.mp he'
    exact ⟨e, he, List.mem_map.mp hr⟩
  · rintro ⟨e, he, hr⟩
    refine ⟨(e.1, e.2.listed, (walk e.2).map fun r => (e.1 :: r.1, r.2)), mem_inOrder.mpr ?_,
      List.mem_map.mpr hr⟩
    rw [walkAll_eq]
    exact List.mem_map_of_mem he

/-- Below a directory there are names to come; a file or link is there itself. -/
theorem path_of_mem_walk (h : (path, l) ∈ walk t) :
    (t.listed = .subdir ∧ path ≠ []) ∨ (path = [] ∧ l.listed = t.listed) := by
  cases t with
  | file data =>
    obtain ⟨rfl, rfl⟩ := Prod.mk.inj (List.mem_singleton.mp (by rwa [walk] at h))
    exact .inr ⟨rfl, rfl⟩
  | link target toDir =>
    obtain ⟨rfl, rfl⟩ := Prod.mk.inj (List.mem_singleton.mp (by rwa [walk] at h))
    exact .inr ⟨rfl, rfl⟩
  | dir entries =>
    obtain ⟨e, -, q, -, heq⟩ := mem_walk_dir.mp h
    exact .inl ⟨rfl, by simp [← (Prod.mk.inj heq).1]⟩

theorem order_cons (h : (path, l) ∈ walk t) (name : Name) :
    order (name :: path) l = toLex (t.listed.place, sortKey name) :: order path l := by
  rcases path_of_mem_walk h with ⟨hdir, hne⟩ | ⟨rfl, hl⟩
  · cases path with
    | nil => exact absurd rfl hne
    | cons other path => rw [order, hdir]
  · rw [order, order, hl]

theorem pairwise_walk (ht : t.Valid) :
    (walk t).Pairwise fun a b => order a.1 a.2 < order b.1 b.2 := by
  induction t using FileTree.induct with
  | file data => exact List.pairwise_singleton _ _
  | link target toDir => exact List.pairwise_singleton _ _
  | dir entries ih =>
    rw [FileTree.Valid, validAll_iff] at ht
    have hnames : ((walkAll entries).map Prod.fst).Nodup := by
      rw [walkAll_eq, List.map_map]
      exact ht.1
    have hentry : ∀ e' ∈ inOrder (walkAll entries), ∃ e ∈ entries,
        (e.1, e.2.listed, (walk e.2).map fun r => (e.1 :: r.1, r.2)) = e' := by
      intro e' he'
      rw [mem_inOrder, walkAll_eq] at he'
      exact List.mem_map.mp he'
    rw [walk, List.pairwise_flatMap]
    constructor
    · -- what is below one entry
      intro e' he'
      obtain ⟨e, he, rfl⟩ := hentry e' he'
      refine List.pairwise_map.mpr ((ih e he (ht.2 e he).2).imp_of_mem fun {a b} ha hb hab => ?_)
      rw [order_cons ha, order_cons hb, List.cons_lt_cons_iff]
      exact .inr ⟨rfl, hab⟩
    · refine (pairwise_inOrder hnames).imp_of_mem fun {a' b'} ha' hb' hab x hx y hy => ?_
      obtain ⟨a, -, rfl⟩ := hentry a' ha'
      obtain ⟨b, -, rfl⟩ := hentry b' hb'
      obtain ⟨q, hq, rfl⟩ := List.mem_map.mp hx
      obtain ⟨r, hr, rfl⟩ := List.mem_map.mp hy
      rw [order_cons hq, order_cons hr, List.cons_lt_cons_iff]
      exact .inl hab

/-- At a path there is one thing. -/
theorem walk_unique (ht : t.Valid) (h : (path, l) ∈ walk t) (h' : (path, l') ∈ walk t) : l = l' := by
  induction t using FileTree.induct generalizing path with
  | file data =>
    rw [walk, List.mem_singleton] at h h'
    exact (Prod.mk.inj h).2.trans (Prod.mk.inj h').2.symm
  | link target toDir =>
    rw [walk, List.mem_singleton] at h h'
    exact (Prod.mk.inj h).2.trans (Prod.mk.inj h').2.symm
  | dir entries ih =>
    rw [FileTree.Valid, validAll_iff] at ht
    obtain ⟨e, he, q, hq, heq⟩ := mem_walk_dir.mp h
    obtain ⟨e', he', q', hq', heq'⟩ := mem_walk_dir.mp h'
    obtain ⟨rfl, rfl⟩ := Prod.mk.inj heq
    obtain ⟨hpath, rfl⟩ := Prod.mk.inj heq'
    obtain ⟨hname, hrest⟩ := List.cons.inj hpath
    have hsame : e' = e := List.inj_on_of_nodup_map ht.1 he' he hname
    subst hsame
    obtain ⟨q₁, q₂⟩ := q
    obtain ⟨q₁', q₂'⟩ := q'
    subst hrest
    exact ih e' he' (ht.2 e' he').2 hq hq'

/-- The names and targets of a valid tree. -/
theorem valid_of_mem_walk (ht : t.Valid) (h : (path, l) ∈ walk t) :
    (∀ name ∈ path, ValidName name) ∧ ∀ target toDir, l = .link target toDir → 0 ∉ target := by
  induction t using FileTree.induct generalizing path with
  | file data =>
    obtain ⟨rfl, rfl⟩ := Prod.mk.inj (List.mem_singleton.mp (by rwa [walk] at h))
    exact ⟨fun _ hn => absurd hn List.not_mem_nil, fun _ _ hl => nomatch hl⟩
  | link target toDir =>
    obtain ⟨rfl, rfl⟩ := Prod.mk.inj (List.mem_singleton.mp (by rwa [walk] at h))
    refine ⟨fun _ hn => absurd hn List.not_mem_nil, fun target' toDir' hl => ?_⟩
    obtain ⟨rfl, -⟩ := Leaf.link.inj hl
    exact ht
  | dir entries ih =>
    rw [FileTree.Valid, validAll_iff] at ht
    obtain ⟨e, he, q, hq, heq⟩ := mem_walk_dir.mp h
    obtain ⟨rfl, rfl⟩ := Prod.mk.inj heq
    obtain ⟨hpath, htarget⟩ := ih e he (ht.2 e he).2 hq
    exact ⟨List.forall_mem_cons.mpr ⟨(ht.2 e he).1, hpath⟩, htarget⟩

/-- Two trees that hold the same, with the same links leading to directories, are walked
alike: neither the order in which directories are listed nor empty ones matter. -/
theorem walk_eq_of_mem {t' : FileTree} (ht : t.Valid) (ht' : t'.Valid)
    (h : ∀ r, r ∈ walk t ↔ r ∈ walk t') : walk t = walk t' := by
  have hnodup : ∀ {t : FileTree}, t.Valid → (walk t).Nodup := by
    intro t ht
    refine (pairwise_walk ht).imp ?_
    rintro a b hlt rfl
    exact lt_irrefl _ hlt
  refine List.Perm.eq_of_pairwise ?_ (pairwise_walk ht) (pairwise_walk ht')
    ((List.perm_ext_iff_of_nodup (hnodup ht) (hnodup ht')).mpr h)
  intro a b _ _ hab hba
  exact absurd (hab.trans hba) (lt_irrefl _)

end Walk

/-! ### Taking the hashed bytes apart -/

/-- An entry as a file system can have it. -/
def ValidEntry (r : List Name × Entry) : Prop :=
  (∀ name ∈ r.1, ValidName name) ∧ ∀ target, r.2 = .link target → 0 ∉ target

/-- The lists go the same way up to a file whose bytes in the second go on with a NUL and the
frames of what follows in the first. -/
def Imitates (rs rs' : List (List Name × Entry)) : Prop :=
  ∃ pre path data more rest rest', rs = pre ++ (path, .file data) :: rest ∧
    rs' = pre ++ (path, .file (data ++ 0 :: more)) :: rest' ∧
    rest.flatMap frame = more ++ 0 :: rest'.flatMap frame

/-- Two ways of cutting a list at a separator: the same, or the one goes further. -/
theorem cut_cases {b : UInt8} {x x' y y' : List UInt8} (h : x ++ b :: y = x' ++ b :: y') :
    (x = x' ∧ y = y') ∨ (∃ z, x' = x ++ b :: z ∧ y = z ++ b :: y') ∨
      ∃ z, x = x' ++ b :: z ∧ y' = z ++ b :: y := by
  rcases List.append_eq_append_iff.mp h with ⟨z, hx, hy⟩ | ⟨z, hx, hy⟩
  · cases z with
    | nil => exact .inl ⟨by simpa using hx.symm, (List.cons.inj hy).2⟩
    | cons c z =>
      obtain ⟨rfl, hyz⟩ := List.cons.inj hy
      exact .inr (.inl ⟨z, hx, hyz⟩)
  · cases z with
    | nil => exact .inl ⟨by simpa using hx, (List.cons.inj hy).2.symm⟩
    | cons c z =>
      obtain ⟨rfl, hyz⟩ := List.cons.inj hy
      exact .inr (.inr ⟨z, hx, hyz⟩)

/-- Before the first separator there is one way. -/
theorem cut_inj {b : UInt8} {x x' y y' : List UInt8} (hx : b ∉ x) (hx' : b ∉ x')
    (h : x ++ b :: y = x' ++ b :: y') : x = x' ∧ y = y' := by
  rcases cut_cases h with h | ⟨z, rfl, -⟩ | ⟨z, rfl, -⟩
  · exact h
  · exact absurd (List.mem_append_right _ List.mem_cons_self) hx'
  · exact absurd (List.mem_append_right _ List.mem_cons_self) hx

theorem not_mem_joined {b : UInt8} (hb : b ≠ 47) : ∀ {path : List Name},
    (∀ name ∈ path, b ∉ name) → b ∉ joined path
  | [], _ => List.not_mem_nil
  | [name], h => h name List.mem_cons_self
  | name :: other :: path, h => by
    rw [joined, List.mem_append, List.mem_cons]
    rintro (hmem | rfl | hmem)
    · exact h name List.mem_cons_self hmem
    · exact hb rfl
    · exact not_mem_joined hb (fun n hn => h n (List.mem_cons_of_mem _ hn)) hmem

theorem joined_inj : ∀ {path path' : List Name}, (∀ name ∈ path, ValidName name) →
    (∀ name ∈ path', ValidName name) → joined path = joined path' → path = path'
  | [], [], _, _, _ => rfl
  | [], [name], _, h', h => absurd h.symm (h' name List.mem_cons_self).1
  | [], name :: other :: path, _, _, h => by simp [joined] at h
  | [name], [], h, _, heq => absurd heq (h name List.mem_cons_self).1
  | name :: other :: path, [], _, _, h => by simp [joined] at h
  | [name], [name'], _, _, h => congrArg (fun n => [n]) h
  | [name], name' :: other :: path, h, _, heq => by
    have hmem : 47 ∈ joined [name] := by
      rw [heq, joined]
      simp
    exact absurd hmem (h name List.mem_cons_self).2.2
  | name' :: other :: path, [name], _, h, heq => by
    have hmem : 47 ∈ joined [name] := by
      rw [← heq, joined]
      simp
    exact absurd hmem (h name List.mem_cons_self).2.2
  | name :: other :: path, name' :: other' :: path', h, h', heq => by
    rw [joined, joined] at heq
    obtain ⟨rfl, hrest⟩ := cut_inj (h name List.mem_cons_self).2.2 (h' name' List.mem_cons_self).2.2
      heq
    rw [joined_inj (fun n hn => h n (List.mem_cons_of_mem _ hn))
      (fun n hn => h' n (List.mem_cons_of_mem _ hn)) hrest]

theorem Imitates.cons {rs rs' : List (List Name × Entry)} (h : Imitates rs rs')
    (r : List Name × Entry) : Imitates (r :: rs) (r :: rs') := by
  obtain ⟨pre, path, data, more, rest, rest', rfl, rfl, hrest⟩ := h
  exact ⟨r :: pre, path, data, more, rest, rest', rfl, rfl, hrest⟩

theorem Imitates.framed_eq {rs rs' : List (List Name × Entry)} (h : Imitates rs rs') :
    rs.flatMap frame = rs'.flatMap frame := by
  obtain ⟨pre, path, data, more, rest, rest', rfl, rfl, hrest⟩ := h
  simp only [List.flatMap_append, List.flatMap_cons, frame, hrest, List.append_assoc,
    List.cons_append, List.nil_append]

/-- The same bytes are hashed of the same entries, and where a file imitates entries. -/
theorem framed_eq_cases : ∀ {rs rs' : List (List Name × Entry)}, (∀ r ∈ rs, ValidEntry r) →
    (∀ r ∈ rs', ValidEntry r) → rs.flatMap frame = rs'.flatMap frame →
      rs = rs' ∨ Imitates rs rs' ∨ Imitates rs' rs
  | [], [], _, _, _ => .inl rfl
  | [], (path, .file data) :: rs', _, _, h => by simp [frame] at h
  | [], (path, .link target) :: rs', _, _, h => by simp [frame] at h
  | (path, .file data) :: rs, [], _, _, h => by simp [frame] at h
  | (path, .link target) :: rs, [], _, _, h => by simp [frame] at h
  | (path, e) :: rs, (path', e') :: rs', h, h', heq => by
    have ih := @framed_eq_cases rs rs' (fun r hr => h r (List.mem_cons_of_mem _ hr))
      fun r hr => h' r (List.mem_cons_of_mem _ hr)
    have hnext : (rs = rs' ∨ Imitates rs rs' ∨ Imitates rs' rs) → path = path' → e = e' →
        (path, e) :: rs = (path', e') :: rs' ∨ Imitates ((path, e) :: rs) ((path', e') :: rs') ∨
          Imitates ((path', e') :: rs') ((path, e) :: rs) := by
      rintro hcases rfl rfl
      rcases hcases with rfl | hi | hi
      · exact .inl rfl
      · exact .inr (.inl (hi.cons _))
      · exact .inr (.inr (hi.cons _))
    obtain ⟨hpath, hlink⟩ := h _ List.mem_cons_self
    obtain ⟨hpath', hlink'⟩ := h' _ List.mem_cons_self
    have hnul := not_mem_joined (b := 0) (by decide) fun n hn => (hpath n hn).2.1
    have hnul' := not_mem_joined (b := 0) (by decide) fun n hn => (hpath' n hn).2.1
    -- the path ends at the first NUL
    have hframe : ∀ (p : List Name) (e : Entry) (rest : List UInt8), ∃ k body,
        frame (p, e) ++ rest = joined p ++ 0 :: k :: (body ++ 0 :: rest) ∧
          (e = .file body ∧ k = 70 ∨ e = .link body ∧ k = 76) := by
      intro p e rest
      cases e with
      | file data => exact ⟨70, data, by simp [frame], .inl ⟨rfl, rfl⟩⟩
      | link target => exact ⟨76, target, by simp [frame], .inr ⟨rfl, rfl⟩⟩
    obtain ⟨k, body, hbody, hk⟩ := hframe path e (rs.flatMap frame)
    obtain ⟨k', body', hbody', hk'⟩ := hframe path' e' (rs'.flatMap frame)
    rw [List.flatMap_cons, List.flatMap_cons, hbody, hbody'] at heq
    obtain ⟨hjoined, hrest⟩ := cut_inj hnul hnul' heq
    obtain rfl := joined_inj hpath hpath' hjoined
    obtain ⟨rfl, hdata⟩ := List.cons.inj hrest
    rcases hk with ⟨rfl, rfl⟩ | ⟨rfl, rfl⟩
    · obtain ⟨rfl, -⟩ := hk'.resolve_right fun hc => absurd hc.2 (by decide)
      rcases cut_cases hdata with ⟨rfl, hmore⟩ | ⟨x, rfl, hx⟩ | ⟨x, rfl, hx⟩
      · exact hnext (ih hmore) rfl rfl
      · exact .inr (.inl ⟨[], path, body, x, rs, rs', rfl, rfl, hx⟩)
      · exact .inr (.inr ⟨[], path, body', x, rs', rs, rfl, rfl, hx⟩)
    · -- and so does the target of a link
      obtain ⟨rfl, -⟩ := hk'.resolve_left fun hc => absurd hc.2 (by decide)
      obtain ⟨rfl, hmore⟩ := cut_inj (hlink body rfl) (hlink' body' rfl) hdata
      exact hnext (ih hmore) rfl rfl

/-! ### What the hash tells -/

namespace Directory

variable {d d' : Directory}

theorem validEntry (d : Directory) : ∀ r ∈ listing d.tree, ValidEntry r := by
  intro r hr
  obtain ⟨q, hq, rfl⟩ := List.mem_map.mp hr
  obtain ⟨hpath, htarget⟩ := valid_of_mem_walk d.valid hq
  refine ⟨hpath, fun target he => ?_⟩
  obtain ⟨path, l⟩ := q
  cases l with
  | file data => exact nomatch he
  | link target' toDir =>
    obtain rfl := Entry.link.inj he
    exact htarget target' toDir rfl

/-- At a path there is one entry. -/
theorem listing_unique {path : List Name} {e e' : Entry} (h : (path, e) ∈ listing d.tree)
    (h' : (path, e') ∈ listing d.tree) : e = e' := by
  obtain ⟨q, hq, heq⟩ := List.mem_map.mp h
  obtain ⟨q', hq', heq'⟩ := List.mem_map.mp h'
  obtain ⟨rfl, rfl⟩ := Prod.mk.inj heq
  obtain ⟨hpath, rfl⟩ := Prod.mk.inj heq'
  obtain ⟨path, l⟩ := q
  obtain ⟨path', l'⟩ := q'
  obtain rfl : path' = path := hpath
  exact congrArg Leaf.entry (walk_unique d.valid hq hq')

/-- A tree that imitates another is not the same. -/
theorem not_same_of_imitates (h : Imitates (listing d.tree) (listing d'.tree)) : ¬ d.Same d' := by
  obtain ⟨pre, path, data, more, rest, rest', hd, hd', -⟩ := h
  intro hsame
  have hmem : (path, Entry.file data) ∈ listing d'.tree := by
    rw [← hsame, hd]
    simp
  have hmem' : (path, Entry.file (data ++ 0 :: more)) ∈ listing d'.tree := by
    rw [hd']
    simp
  have hlen := congrArg List.length (Entry.file.inj (listing_unique hmem hmem'))
  rw [List.length_append, List.length_cons] at hlen
  omega

/-- Trees with the same files and links are hashed in the same order when the same links
lead to directories. -/
theorem listing_eq_of_same (hsame : d.Same d')
    (hdirs : ∀ path target toDir toDir', (path, Leaf.link target toDir) ∈ walk d.tree →
      (path, Leaf.link target toDir') ∈ walk d'.tree → toDir = toDir') :
    listing d.tree = listing d'.tree := by
  -- a leaf is told by its entry, but for where a link leads
  have hleaf : ∀ {path : List Name} {l l' : Leaf}, (path, l) ∈ walk d.tree →
      (path, l') ∈ walk d'.tree → l.entry = l'.entry → l = l' := by
    intro path l l' h h' he
    cases l with
    | file data =>
      cases l' with
      | file data' => exact congrArg Leaf.file (Entry.file.inj he)
      | link target toDir => exact nomatch he
    | link target toDir =>
      cases l' with
      | file data' => exact nomatch he
      | link target' toDir' =>
        obtain rfl := Entry.link.inj he
        rw [hdirs path target toDir toDir' h h']
  refine congrArg (List.map _) (walk_eq_of_mem d.valid d'.valid fun r => ?_)
  obtain ⟨path, l⟩ := r
  constructor
  · intro h
    have hmem : (path, l.entry) ∈ listing d'.tree := (hsame _).mp (List.mem_map_of_mem h)
    obtain ⟨⟨path', l'⟩, h', heq⟩ := List.mem_map.mp hmem
    obtain ⟨rfl, he⟩ := Prod.mk.inj heq
    rwa [hleaf h h' he.symm]
  · intro h'
    have hmem : (path, l.entry) ∈ listing d.tree := (hsame _).mpr (List.mem_map_of_mem h')
    obtain ⟨⟨path', l'⟩, h, heq⟩ := List.mem_map.mp hmem
    obtain ⟨rfl, he⟩ := Prod.mk.inj heq
    rwa [← hleaf h h' he]

/-- `content_hash` tells whether two trees are the same, exactly when it hashes both; when,
if they are the same, their walks go in one order; and when no file of the one imitates the
entries that come next in the other. -/
theorem content_hash_identifies_iff {δ : Type} {sha256 : List UInt8 → δ}
    (hsha : Function.Injective sha256) (d d' : Directory) :
    (∃ h h', content_hash sha256 d.tree = some h ∧ content_hash sha256 d'.tree = some h' ∧
        (h = h' ↔ d.Same d')) ↔
      (listing d.tree).all encodable = true ∧ (listing d'.tree).all encodable = true ∧
        (d.Same d' → listing d.tree = listing d'.tree) ∧
        ¬ Imitates (listing d.tree) (listing d'.tree) ∧
        ¬ Imitates (listing d'.tree) (listing d.tree) := by
  have hhash : ∀ (d : Directory) (h : δ), content_hash sha256 d.tree = some h ↔
      (listing d.tree).all encodable = true ∧ sha256 ((listing d.tree).flatMap frame) = h := by
    intro d h
    show (if (listing d.tree).all encodable = true then _ else _) = _ ↔ _
    split_ifs with henc
    · rw [Option.some_inj, and_iff_right henc]
      exact Iff.rfl
    · simp [henc]
  constructor
  · rintro ⟨h, h', hd, hd', htold⟩
    obtain ⟨henc, rfl⟩ := (hhash d h).mp hd
    obtain ⟨henc', rfl⟩ := (hhash d' h').mp hd'
    rw [hsha.eq_iff] at htold
    refine ⟨henc, henc', fun hsame => ?_, fun hi => ?_, fun hi => ?_⟩
    · rcases framed_eq_cases d.validEntry d'.validEntry (htold.mpr hsame) with heq | hi | hi
      · exact heq
      · exact absurd hsame (not_same_of_imitates hi)
      · exact absurd (fun r => (hsame r).symm) (not_same_of_imitates hi)
    · exact not_same_of_imitates hi (htold.mp hi.framed_eq)
    · exact not_same_of_imitates hi fun r => (htold.mp hi.framed_eq.symm r).symm
  · rintro ⟨henc, henc', horder, hi, hi'⟩
    refine ⟨_, _, (hhash d _).mpr ⟨henc, rfl⟩, (hhash d' _).mpr ⟨henc', rfl⟩, ?_⟩
    rw [hsha.eq_iff]
    constructor
    · intro heq
      rcases framed_eq_cases d.validEntry d'.validEntry heq with heq | hc | hc
      · exact fun r => by rw [heq]
      · exact absurd hc hi
      · exact absurd hc hi'
    · intro hsame
      rw [horder hsame]

/-- The file `a` of a directory, with these bytes. -/
def single (data : List UInt8) : Directory where
  entries := [([97], .file data)]
  valid := ⟨List.nodup_singleton _, by decide, trivial, trivial⟩

theorem content_hash_identifies_single :
    (∃ h h', content_hash id (single [120]).tree = some h ∧
        content_hash id (single [121]).tree = some h' ∧
        (h = h' ↔ (single [120]).Same (single [121]))) ↔
      (listing (single [120]).tree).all encodable = true ∧
        (listing (single [121]).tree).all encodable = true ∧
        ((single [120]).Same (single [121]) →
          listing (single [120]).tree = listing (single [121]).tree) ∧
        ¬ Imitates (listing (single [120]).tree) (listing (single [121]).tree) ∧
        ¬ Imitates (listing (single [121]).tree) (listing (single [120]).tree) :=
  content_hash_identifies_iff Function.injective_id (single [120]) (single [121])

/-- The files `a` and `b` of a directory, with these bytes. -/
def couple (data data' : List UInt8) : Directory where
  entries := [([98], .file data'), ([97], .file data)]
  valid := ⟨show [[98], [97]].Nodup by decide, by decide, trivial, by decide, trivial, trivial⟩

/-- A link `a` that leads to a directory or not, and an empty file `b`. -/
def linked (toDir : Bool) : Directory where
  entries := [([98], .file []), ([97], .link [47] toDir)]
  valid := ⟨show [[98], [97]].Nodup by decide, by decide, trivial, by decide,
    show 0 ∉ [47] by decide, trivial⟩

/-- One file that holds `x`, NUL, `b`, NUL, `Fy` is hashed like two files `x` and `y`; and a
link that leads to a directory only in one of two trees changes its place, and the hash. -/
theorem imitation_unnoticed :
    (content_hash id (single [120, 0, 98, 0, 70, 121]).tree = content_hash id (couple [120] [121]).tree ∧
        (content_hash id (couple [120] [121]).tree).isSome = true ∧
        ¬ (single [120, 0, 98, 0, 70, 121]).Same (couple [120] [121])) ∧
      (linked true).Same (linked false) ∧
        content_hash id (linked true).tree ≠ content_hash id (linked false).tree := by
  have hcouple : listing (couple [120] [121]).tree =
      [([[97]], .file [120]), ([[98]], .file [121])] := by
    decide +kernel
  have htrue : listing (linked true).tree = [([[98]], .file []), ([[97]], .link [47])] := by
    decide +kernel
  have hfalse : listing (linked false).tree = [([[97]], .link [47]), ([[98]], .file [])] := by
    decide +kernel
  refine ⟨⟨by decide +kernel, by decide +kernel, fun h => ?_⟩, fun r => ?_, by decide +kernel⟩
  · have hmem := (h ([[98]], .file [121])).mpr (by rw [hcouple]; simp)
    exact absurd hmem (by decide +kernel)
  · rw [htrue, hfalse]
    simp [or_comm]

end Directory

end Compose
