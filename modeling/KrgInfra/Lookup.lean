/-
Where a lookup ends when any name on the way may be a link.

The lookup of a path and its `realpath` take the same steps, so a name that can be
looked up lies in the directory that `realpath` finds for the rest of the path,
however many links lead there.

* `locate_concat` — the place of a name is `realpath` of its directory, and the name;
* `LinkFree` — a path of plain names with no link on it, which is its own `realpath`;
* `realpath_append` — `realpath` of a link-free path below a directory, by the
  directory's;
* `Settled` — names were only removed or turned into files; a lookup that still ends then ends
  where it did (`Settled.locate`).
-/
import KrgInfra.FileSystem

namespace Posix

namespace FS

variable {fs fs' fs'' : FS}

theorem RealDir.dropLast {d : Path} (hd : fs.RealDir d) : fs.RealDir d.dropLast :=
  hd.of_prefix (List.dropLast_prefix d)

theorem plain_iff_of_not {a : String} (h₁ : ¬ (a = "" ∨ a = ".")) (h₂ : a ≠ "..") : Plain a :=
  ⟨fun h => h₁ (.inl h), fun h => h₁ (.inr h), h₂⟩

/-- One step over a name that something follows, from a real directory: the lookup
goes on in a real directory, and `realpath` goes on with it. -/
theorem walk_cons_cases {f : Bool} {k : ℕ} {cur q : Path} {a : String} {rest : List String}
    (hc : fs.RealDir cur) (hne : rest ≠ []) (h : fs.walk f (k + 1) cur (a :: rest) = .ok q) :
    ∃ cur' names, fs.RealDir cur' ∧ fs.walk f k cur' (names ++ rest) = .ok q ∧
      (∀ r, r ≠ [] → fs.walk f (k + 1) cur (a :: r) = fs.walk f k cur' (names ++ r)) ∧
      ∀ j r, fs.realpathFrom (j + 1) cur (a :: r) = fs.realpathFrom j cur' (names ++ r) := by
  by_cases h₁ : a = "" ∨ a = "."
  · refine ⟨cur, [], hc, ?_, fun r _ => ?_, fun j r => ?_⟩
    · rwa [walk, if_pos h₁] at h
    · rw [walk, if_pos h₁, List.nil_append]
    · rw [realpathFrom, if_pos h₁, List.nil_append]
  by_cases h₂ : a = ".."
  · refine ⟨cur.dropLast, [], hc.dropLast, ?_, fun r _ => ?_, fun j r => ?_⟩
    · rwa [walk, if_neg h₁, if_pos h₂] at h
    · rw [walk, if_neg h₁, if_pos h₂, List.nil_append]
    · rw [realpathFrom, if_neg h₁, if_pos h₂, List.nil_append]
  have ha := plain_iff_of_not h₁ h₂
  rw [walk_plain ha] at h
  rcases hnode : fs.node (cur ++ [a]) with _ | ⟨m⟩ | ⟨i⟩ | ⟨t⟩
  · rw [hnode] at h
    simp only [if_neg hne] at h
    exact absurd h (by simp)
  · refine ⟨cur ++ [a], [], hc.concat ha (isDir_iff.mpr (.inr ⟨m, hnode⟩)), ?_, fun r _ => ?_,
      fun j r => ?_⟩
    · rwa [hnode] at h
    · rw [walk_plain ha, hnode, List.nil_append]
    · rw [realpathFrom, if_neg h₁, if_neg h₂, hnode, List.nil_append]
  · rw [hnode] at h
    simp only [if_neg hne] at h
    exact absurd h (by simp)
  · have hstart : fs.RealDir (if t.absolute then [] else cur) := by
      split
      · exact realDir_nil
      · exact hc
    refine ⟨_, t.names, hstart, ?_, fun r hr => ?_, fun j r => ?_⟩
    · rw [hnode] at h
      simpa only [hne, false_and, if_false] using h
    · rw [walk_plain ha, hnode]
      simp only [hr, false_and, if_false]
    · rw [realpathFrom, if_neg h₁, if_neg h₂, hnode]

/-- Where a lookup under a last name `n` ends, from a real directory, when a link
under that name is not followed. -/
theorem walk_concat {n : String} : ∀ {k : ℕ} {cur q : Path} {rest : List String},
    fs.RealDir cur → fs.walk false k cur (rest ++ [n]) = .ok q →
    (Plain n → ∀ j, k ≤ j + 1 → fs.RealDir (fs.realpathFrom j cur rest) ∧
      q = fs.realpathFrom j cur rest ++ [n]) ∧ (¬ Plain n → fs.RealDir q) := by
  intro k
  induction k with
  | zero =>
    intro cur q rest _ h
    exact absurd h (by simp [walk])
  | succ k ih =>
    intro cur q rest hc h
    cases rest with
    | nil =>
      rw [List.nil_append] at h
      refine ⟨fun hn j _ => ?_, fun hn => ?_⟩
      · have hreal : fs.realpathFrom j cur [] = cur := by cases j <;> simp [realpathFrom]
        rw [hreal]
        rw [walk_plain hn] at h
        refine ⟨hc, ?_⟩
        rcases hnode : fs.node (cur ++ [n]) with _ | ⟨m⟩ | ⟨i⟩ | ⟨t⟩
        · simpa [hnode, eq_comm] using h
        · rw [hnode] at h
          exact walk_nil h
        · simpa [hnode, eq_comm] using h
        · simpa [hnode, eq_comm] using h
      · rw [walk] at h
        by_cases h₁ : n = "" ∨ n = "."
        · rw [if_pos h₁] at h
          rwa [walk_nil h]
        by_cases h₂ : n = ".."
        · rw [if_neg h₁, if_pos h₂] at h
          rw [walk_nil h]
          exact hc.dropLast
        · exact absurd (plain_iff_of_not h₁ h₂) hn
    | cons a rest =>
      rw [List.cons_append] at h
      obtain ⟨cur', names, hc', hw, -, hr⟩ := walk_cons_cases hc (by simp) h
      rw [← List.append_assoc] at hw
      obtain ⟨hplain, hdir⟩ := ih hc' hw
      refine ⟨fun hn j hj => ?_, hdir⟩
      -- the lookup has a step left for the name itself, so `realpath` has one for `a`
      obtain ⟨k, rfl⟩ : ∃ i, k = i + 1 := by
        cases k with
        | zero => exact absurd hw (by simp [walk])
        | succ i => exact ⟨i, rfl⟩
      obtain ⟨j, rfl⟩ : ∃ i, j = i + 1 := ⟨j - 1, by omega⟩
      rw [hr j rest]
      exact hplain hn j (by omega)

/-- A name that can be looked up lies in the real directory that its path's
directory leads to. -/
theorem locate_concat {d q : Path} {n : String} (hn : Plain n)
    (h : fs.locate (d ++ [n]) = .ok q) : fs.RealDir (fs.realpath d) ∧ q = fs.realpath d ++ [n] := by
  rw [locate, List.length_append, List.length_singleton] at h
  exact (walk_concat realDir_nil h).1 hn _ (by omega)

/-- A link that can be looked up has a plain name of its own, unless the root is
one. -/
theorem plain_of_locate_link {p q : Path} {t : Target}
    (hroot : ∀ t, fs.node [] ≠ some (.link t)) (h : fs.locate p = .ok q)
    (hl : fs.node q = some (.link t)) : ∃ d n, p = d ++ [n] ∧ Plain n := by
  have hnot : ¬ fs.RealDir q := by
    intro hd
    obtain rfl | ⟨m, hm⟩ := isDir_iff.mp (hd.2 q List.prefix_rfl)
    · exact hroot t hl
    · exact absurd (hl.symm.trans hm) (by simp)
  rcases List.eq_nil_or_concat p with rfl | ⟨d, n, rfl⟩
  · exact absurd (walk_nil h ▸ realDir_nil) hnot
  · rw [List.concat_eq_append] at h
    refine ⟨d, n, List.concat_eq_append, ?_⟩
    by_contra hn
    exact hnot ((walk_concat realDir_nil h).2 hn)

/-- Another name of the same directory is looked up in the same way, if it is no
directory. -/
theorem walk_sibling {n m : String} (hm : Plain m) :
    ∀ {k : ℕ} {cur q : Path} {rest : List String} (j : ℕ), k ≤ j + 1 → fs.RealDir cur →
      fs.walk false k cur (rest ++ [n]) = .ok q →
      fs.isDir (fs.realpathFrom j cur rest ++ [m]) = false →
      fs.walk false k cur (rest ++ [m]) = .ok (fs.realpathFrom j cur rest ++ [m]) := by
  intro k
  induction k with
  | zero =>
    intro cur q rest j _ _ h
    exact absurd h (by simp [walk])
  | succ k ih =>
    intro cur q rest j hj hc h hd
    cases rest with
    | nil =>
      have hreal : fs.realpathFrom j cur [] = cur := by cases j <;> simp [realpathFrom]
      rw [hreal] at hd ⊢
      rw [List.nil_append, walk_plain hm]
      rcases hnode : fs.node (cur ++ [m]) with _ | ⟨p⟩ | ⟨i⟩ | ⟨t⟩
      · simp
      · exact absurd (hd.symm.trans (isDir_iff.mpr (.inr ⟨p, hnode⟩))) (by simp)
      · simp
      · simp
    | cons a rest =>
      rw [List.cons_append] at h
      obtain ⟨cur', names, hc', hw, hstep, hr⟩ := walk_cons_cases hc (by simp) h
      rw [← List.append_assoc] at hw
      obtain ⟨k, rfl⟩ : ∃ i, k = i + 1 := by
        cases k with
        | zero => exact absurd hw (by simp [walk])
        | succ i => exact ⟨i, rfl⟩
      obtain ⟨j, rfl⟩ : ∃ i, j = i + 1 := ⟨j - 1, by omega⟩
      rw [hr j rest] at hd ⊢
      rw [List.cons_append, hstep _ (by simp), ← List.append_assoc]
      exact ih j (by omega) hc' hw hd

theorem locate_sibling {d q : Path} {n m : String} (hm : Plain m)
    (h : fs.locate (d ++ [n]) = .ok q) (hd : fs.isDir (fs.realpath d ++ [m]) = false) :
    fs.locate (d ++ [m]) = .ok (fs.realpath d ++ [m]) := by
  rw [locate, List.length_append, List.length_singleton] at h ⊢
  exact walk_sibling hm _ (by omega) realDir_nil h hd

/-! ### Paths without links -/

/-- A path of plain names, none of them a link. -/
def LinkFree (fs : FS) (p : Path) : Prop :=
  (∀ n ∈ p, Plain n) ∧ ∀ q t, q ≠ [] → q <+: p → fs.node q ≠ some (.link t)

/-- Where a lookup ends there is no link on the way, and so none where no link is
at the end. -/
theorem walk_place {f : Bool} : ∀ {k : ℕ} {cur q : Path} {rest : List String}, fs.RealDir cur →
    fs.walk f k cur rest = .ok q →
    fs.RealDir q ∨ ∃ d n, fs.RealDir d ∧ Plain n ∧ q = d ++ [n] := by
  intro k
  induction k with
  | zero =>
    intro cur q rest _ h
    exact absurd h (by simp [walk])
  | succ k ih =>
    intro cur q rest hc h
    cases rest with
    | nil => exact .inl (walk_nil h ▸ hc)
    | cons a rest =>
      by_cases h₁ : a = "" ∨ a = "."
      · rw [walk, if_pos h₁] at h
        exact ih hc h
      by_cases h₂ : a = ".."
      · rw [walk, if_neg h₁, if_pos h₂] at h
        exact ih hc.dropLast h
      have ha := plain_iff_of_not h₁ h₂
      rw [walk_plain ha] at h
      rcases hnode : fs.node (cur ++ [a]) with _ | ⟨m⟩ | ⟨i⟩ | ⟨t⟩
      · rw [hnode] at h
        simp only at h
        split_ifs at h
        exact .inr ⟨cur, a, hc, ha, (Except.ok.inj h).symm⟩
      · rw [hnode] at h
        exact ih (hc.concat ha (isDir_iff.mpr (.inr ⟨m, hnode⟩))) h
      · rw [hnode] at h
        simp only at h
        split_ifs at h
        exact .inr ⟨cur, a, hc, ha, (Except.ok.inj h).symm⟩
      · rw [hnode] at h
        simp only at h
        split_ifs at h
        · exact .inr ⟨cur, a, hc, ha, (Except.ok.inj h).symm⟩
        · exact ih realDir_nil h
        · exact ih hc h

theorem RealDir.linkFree {d : Path} (hd : fs.RealDir d) : fs.LinkFree d := by
  refine ⟨hd.1, fun q t hq hp hl => ?_⟩
  obtain rfl | ⟨m, hm⟩ := isDir_iff.mp (hd.2 q hp)
  · exact hq rfl
  · exact absurd (hl.symm.trans hm) (by simp)

/-- The place of a file is link-free. -/
theorem linkFree_of_resolve {p q : Path} {i : ℕ} (h : fs.resolve p = .ok q)
    (hi : fs.node q = some (.file i)) : fs.LinkFree q := by
  obtain hd | ⟨d, n, hd, hn, rfl⟩ := walk_place realDir_nil h
  · exact hd.linkFree
  · refine ⟨fun m hm => ?_, fun r t hr hp hl => ?_⟩
    · rcases List.mem_append.mp hm with hm | hm
      · exact hd.1 m hm
      · rwa [List.mem_singleton.mp hm]
    · rcases List.prefix_concat_iff.mp hp with rfl | hp
      · exact absurd (hi.symm.trans hl) (by simp)
      · exact hd.linkFree.2 r t hr hp hl

/-- The directory of a file with no link on the way is a real one. -/
theorem LinkFree.realDir {d : Path} {n : String} (hl : fs.LinkFree (d ++ [n]))
    (hthere : fs.node (d ++ [n]) ≠ none) : fs.RealDir d := by
  -- what has a name below it is a directory, by induction on how far the file is below it
  have hup : ∀ (r : List String) (q : Path), q ++ r = d ++ [n] → r ≠ [] → fs.isDir q = true := by
    intro r
    induction r with
    | nil => exact fun q _ hr => absurd rfl hr
    | cons a r ih =>
      intro q hq _
      have hnode : fs.node (q ++ [a]) ≠ none := by
        cases r with
        | nil => rwa [hq]
        | cons b r =>
          obtain hnil | ⟨m, hm⟩ := isDir_iff.mp (ih (q ++ [a]) (by simpa using hq) (by simp))
          · exact absurd hnil (by simp)
          · simp [hm]
      exact isDir_iff.mpr (fs.tree q a hnode)
  refine ⟨fun m hm => hl.1 m (by simp [hm]), fun q hq => ?_⟩
  obtain ⟨r, rfl⟩ := hq
  exact hup (r ++ [n]) q (by simp) (by simp)

/-- A lookup of names with no link on them can only end at the names themselves. -/
theorem walk_linkFree {f : Bool} : ∀ {k : ℕ} {cur q : Path} {rest : List String},
    fs.LinkFree (cur ++ rest) → fs.walk f k cur rest = .ok q → q = cur ++ rest := by
  intro k
  induction k with
  | zero =>
    intro cur q rest _ h
    exact absurd h (by simp [walk])
  | succ k ih =>
    intro cur q rest hl h
    cases rest with
    | nil => simpa using walk_nil h
    | cons a rest =>
      have happ : cur ++ a :: rest = cur ++ [a] ++ rest := by simp
      rw [walk_plain (hl.1 a (by simp))] at h
      rcases hnode : fs.node (cur ++ [a]) with _ | ⟨m⟩ | ⟨i⟩ | ⟨t⟩
      · rw [hnode] at h
        simp only at h
        split_ifs at h with hr
        rw [hr, ← Except.ok.inj h]
      · rw [hnode] at h
        rw [happ] at hl ⊢
        exact ih hl h
      · rw [hnode] at h
        simp only at h
        split_ifs at h with hr
        rw [hr, ← Except.ok.inj h]
      · exact absurd hnode (hl.2 _ t (by simp) ⟨rest, happ.symm⟩)

theorem LinkFree.locate {p q : Path} (hl : fs.LinkFree p) (h : fs.locate p = .ok q) : q = p :=
  walk_linkFree (show fs.LinkFree ([] ++ p) from hl) h

theorem LinkFree.resolve {p q : Path} (hl : fs.LinkFree p) (h : fs.resolve p = .ok q) : q = p :=
  walk_linkFree (show fs.LinkFree ([] ++ p) from hl) h

/-- `realpath` leaves names with no link on them as they are, however many steps it
has. -/
theorem realpathFrom_linkFree : ∀ {k : ℕ} {cur : Path} {rest : List String},
    fs.LinkFree (cur ++ rest) → fs.realpathFrom k cur rest = cur ++ rest := by
  intro k
  induction k with
  | zero =>
    intro cur rest _
    rw [realpathFrom]
  | succ k ih =>
    intro cur rest hl
    cases rest with
    | nil => simp [realpathFrom]
    | cons a rest =>
      have ha := hl.1 a (by simp)
      have happ : cur ++ a :: rest = cur ++ [a] ++ rest := by simp
      rw [realpathFrom, if_neg (by simp [ha.1, ha.2.1]), if_neg ha.2.2, happ]
      rw [happ] at hl
      rcases hnode : fs.node (cur ++ [a]) with _ | ⟨m⟩ | ⟨i⟩ | ⟨t⟩
      · exact ih hl
      · exact ih hl
      · exact ih hl
      · exact absurd hnode (hl.2 _ t (by simp) (by simp))

/-- What comes after a directory does not change its `realpath`, if no link comes
after it. -/
theorem realpathFrom_append {r : List String} {m : ℕ} :
    ∀ {k : ℕ} {cur : Path} {d : List String}, fs.LinkFree (fs.realpathFrom k cur d ++ r) →
      fs.realpathFrom (k + m) cur (d ++ r) = fs.realpathFrom k cur d ++ r := by
  intro k
  induction k with
  | zero =>
    intro cur d hl
    rw [realpathFrom, List.append_assoc] at hl ⊢
    exact realpathFrom_linkFree hl
  | succ k ih =>
    intro cur d hl
    cases d with
    | nil =>
      rw [realpathFrom] at hl ⊢
      exact realpathFrom_linkFree hl
    | cons a d =>
      rw [Nat.add_right_comm, List.cons_append, realpathFrom, realpathFrom]
      rw [realpathFrom] at hl
      by_cases h₁ : a = "" ∨ a = "."
      · rw [if_pos h₁] at hl
        rw [if_pos h₁, if_pos h₁]
        exact ih hl
      rw [if_neg h₁] at hl
      rw [if_neg h₁, if_neg h₁]
      by_cases h₂ : a = ".."
      · rw [if_pos h₂] at hl
        rw [if_pos h₂, if_pos h₂]
        exact ih hl
      rw [if_neg h₂] at hl
      rw [if_neg h₂, if_neg h₂]
      rcases hnode : fs.node (cur ++ [a]) with _ | ⟨p⟩ | ⟨i⟩ | ⟨t⟩
      · rw [hnode] at hl
        exact ih hl
      · rw [hnode] at hl
        exact ih hl
      · rw [hnode] at hl
        exact ih hl
      · rw [hnode] at hl
        simp only at hl ⊢
        rw [← List.append_assoc]
        exact ih hl

theorem realpath_append {d r : Path} (hl : fs.LinkFree (fs.realpath d ++ r)) :
    fs.realpath (d ++ r) = fs.realpath d ++ r := by
  rw [realpath, List.length_append, ← Nat.add_assoc]
  exact realpathFrom_append hl

/-! ### Lookups after a change -/

/-- From `fs` to `fs'` names were only removed or turned into files, and no
directory was. -/
structure Settled (fs fs' : FS) : Prop where
  node : ∀ p, fs'.node p = fs.node p ∨ fs'.node p = none ∨ ∃ i, fs'.node p = some (.file i)
  isDir : ∀ p, fs.isDir p = true → fs'.isDir p = true
  walkLimit : fs'.walkLimit = fs.walkLimit

/-- A lookup that still ends takes the same steps. -/
theorem Settled.walk (hs : Settled fs fs') : ∀ {k : ℕ} {cur q : Path} {rest : List String},
    fs'.walk false k cur rest = .ok q → fs.walk false k cur rest = .ok q := by
  intro k
  induction k with
  | zero =>
    intro cur q rest h
    exact absurd h (by simp [FS.walk])
  | succ k ih =>
    intro cur q rest h
    cases rest with
    | nil => simpa [FS.walk] using h
    | cons a rest =>
      by_cases h₁ : a = "" ∨ a = "."
      · rw [FS.walk, if_pos h₁] at h ⊢
        exact ih h
      by_cases h₂ : a = ".."
      · rw [FS.walk, if_neg h₁, if_pos h₂] at h ⊢
        exact ih h
      have ha := plain_iff_of_not h₁ h₂
      -- where the node has changed, only the last name of the path is found
      have hend : fs'.isDir (cur ++ [a]) = false → rest = [] → q = cur ++ [a] →
          fs.walk false (k + 1) cur (a :: rest) = .ok q := by
        rintro hd rfl rfl
        rw [walk_plain ha]
        rcases hnode : fs.node (cur ++ [a]) with _ | ⟨m⟩ | ⟨i⟩ | ⟨t⟩
        · simp
        · have := hs.isDir _ (isDir_iff.mpr (.inr ⟨m, hnode⟩))
          exact absurd (hd.symm.trans this) (by simp)
        · simp
        · simp
      rw [walk_plain ha] at h
      rcases hs.node (cur ++ [a]) with hsame | hnone | ⟨i, hi⟩
      · rw [walk_plain ha]
        rw [hsame] at h
        rcases hnode : fs.node (cur ++ [a]) with _ | ⟨m⟩ | ⟨i⟩ | ⟨t⟩
        · rwa [hnode] at h
        · rw [hnode] at h
          exact ih h
        · rwa [hnode] at h
        · rw [hnode] at h
          simp only at h ⊢
          split_ifs at h ⊢
          · exact h
          · exact ih h
          · exact ih h
      · rw [hnone] at h
        simp only at h
        split_ifs at h with hr
        exact hend (by simp [FS.isDir, hnone]) hr (Except.ok.inj h).symm
      · rw [hi] at h
        simp only at h
        split_ifs at h with hr
        exact hend (by simp [FS.isDir, hi, Node.isDir]) hr (Except.ok.inj h).symm

theorem Settled.locate (hs : Settled fs fs') {p q : Path} (h : fs'.locate p = .ok q) :
    fs.locate p = .ok q := by
  rw [FS.locate, hs.walkLimit] at h
  exact hs.walk h

/-- A lookup ends where it did, if a name that was free has become a file at most. -/
theorem walk_filled {p : Path} (hnode : ∀ q, q ≠ p → fs'.node q = fs.node q)
    (hfree : fs.node p = none) (hfile : fs'.node p = none ∨ ∃ i, fs'.node p = some (.file i))
    {f : Bool} : ∀ {k : ℕ} {cur q : Path} {rest : List String},
      fs.walk f k cur rest = .ok q → fs'.walk f k cur rest = .ok q := by
  intro k
  induction k with
  | zero =>
    intro cur q rest h
    exact absurd h (by simp [walk])
  | succ k ih =>
    intro cur q rest h
    cases rest with
    | nil => simpa [walk] using h
    | cons a rest =>
      by_cases h₁ : a = "" ∨ a = "."
      · rw [walk, if_pos h₁] at h ⊢
        exact ih h
      by_cases h₂ : a = ".."
      · rw [walk, if_neg h₁, if_pos h₂] at h ⊢
        exact ih h
      rw [walk_plain (plain_iff_of_not h₁ h₂)] at h ⊢
      by_cases hp : cur ++ [a] = p
      · -- the free name is the last one of the path
        rw [hp, hfree] at h
        simp only at h
        split_ifs at h with hr
        rw [hp]
        obtain hn | ⟨i, hi⟩ := hfile
        · simpa [hn, hr] using h
        · simpa [hi, hr] using h
      · rw [hnode _ hp]
        rcases hn : fs.node (cur ++ [a]) with _ | ⟨m⟩ | ⟨i⟩ | ⟨t⟩
        · rwa [hn] at h
        · rw [hn] at h
          exact ih h
        · rwa [hn] at h
        · rw [hn] at h
          simp only at h ⊢
          split_ifs at h ⊢
          · exact h
          · exact ih h
          · exact ih h

theorem Settled.refl (fs : FS) : Settled fs fs := ⟨fun _ => .inl rfl, fun _ h => h, rfl⟩

theorem Settled.trans (h : Settled fs fs') (h' : Settled fs' fs'') : Settled fs fs'' where
  node p := by
    obtain hp | hp | hp := h'.node p
    · rw [hp]
      exact h.node p
    · exact .inr (.inl hp)
    · exact .inr (.inr hp)
  isDir p hp := h'.isDir p (h.isDir p hp)
  walkLimit := h'.walkLimit.trans h.walkLimit

theorem settled_clearNode {q : Path} (h : fs.isDir q = false) : Settled fs (fs.clearNode q h) where
  node p := by
    rw [node_clearNode]
    rcases eq_or_ne p q with rfl | hne
    · exact .inr (.inl (Function.update_self ..))
    · exact .inl (Function.update_of_ne hne ..)
  isDir := (sameBut_clearNode h).isDir
  walkLimit := rfl

theorem settled_setNode {q : Path} {i : ℕ} (h : fs.CanSet q (.file i)) :
    Settled fs (fs.setNode q (.file i) h) where
  node p := by
    rw [node_setNode]
    rcases eq_or_ne p q with rfl | hne
    · exact .inr (.inr ⟨i, Function.update_self ..⟩)
    · exact .inl (Function.update_of_ne hne ..)
  isDir := (sameBut_setNode h).isDir
  walkLimit := rfl

theorem settled_setInode (i : ℕ) (f : Inode) : Settled fs (fs.setInode i f) :=
  ⟨fun _ => .inl rfl, fun _ h => h, rfl⟩

theorem settled_newInode (f : Inode) : Settled fs (fs.newInode f) :=
  ⟨fun _ => .inl rfl, fun _ h => h, rfl⟩

theorem settled_createExcl {p : Path} {mode : BitVec 12} {i : ℕ}
    (h : fs.createExcl p mode = .ok (i, fs')) : Settled fs fs' := by
  obtain ⟨-, h⟩ := createExcl_ok h
  obtain ⟨q, hset, -, -, rfl⟩ := create_ok h
  exact (settled_newInode _).trans (settled_setNode hset)

/-- Renaming a file. -/
theorem settled_replace {src dst : Path} (h : fs.replace src dst = .ok fs')
    (hsrc : ∀ q n, fs.locate src = .ok q → fs.node q = some n → ∃ i, n = .file i) :
    Settled fs fs' := by
  obtain ⟨q, r, n, hq, -, hn, ⟨-, rfl⟩ | ⟨-, hdir, hset, rfl⟩⟩ := replace_ok h
  · exact Settled.refl _
  · obtain ⟨i, rfl⟩ := hsrc q n hq hn
    exact (settled_clearNode hdir).trans (settled_setNode hset)

/-- A link that is left was always one, with that target. -/
theorem Settled.link (hs : Settled fs fs') {p : Path} {t : Target}
    (h : fs'.node p = some (.link t)) : fs.node p = some (.link t) := by
  obtain hp | hp | ⟨i, hp⟩ := hs.node p
  · rwa [hp] at h
  · exact absurd (hp.symm.trans h) (by simp)
  · exact absurd (hp.symm.trans h) (by simp)

/-- Where `readlink` has found a link. -/
theorem readlink_ok {p : Path} {t : Target} (h : fs.readlink p = .ok t) :
    ∃ q, fs.locate p = .ok q ∧ fs.node q = some (.link t) := by
  unfold readlink at h
  rcases hl : fs.locate p with e | q
  · rw [hl] at h
    exact absurd h (by simp [bind, Except.bind])
  · rw [hl] at h
    simp only [bind, Except.bind] at h
    split at h
    · exact ⟨q, rfl, by rw [‹fs.node q = _›, Except.ok.inj h]⟩
    · exact absurd h (by simp)
    · exact absurd h (by simp)

end FS

end Posix
