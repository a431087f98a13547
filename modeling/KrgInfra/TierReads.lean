/-
The two tiers in order, and what can then be read on the scratch tier.

The tiers are `Orderly` when every link on the scratch tier leads to a regular file
on the cold tier, and the cold tier holds no links.  A path on the scratch tier then
reads as the file under its name or as the cold file its link leads to, and as
nothing else.

* `walk_orderly` — where a lookup on the scratch tier ends;
* `Orderly.reads_iff` — what a path reads as;
* `untouched_of_same` — so a change that keeps the nodes, the targets of the links and
  the bytes leaves every path reading as before.
-/
import KrgInfra.ScratchIO

namespace Scratch

open Posix

/-- The link leads, from the root, to a regular file in a real directory. -/
def LeadsToFile (fs : FS) (t : Target) : Prop :=
  t.absolute = true ∧ ∃ d n i, t.names = d ++ [n] ∧ fs.RealDir d ∧ Plain n ∧
    fs.node t.names = some (.file i)

variable {fs fs' : FS}

/-- A lookup of a regular file's own path ends there, and one that goes on below it
fails. -/
theorem walk_file {f : Bool} {k : ℕ} {d q : Path} {n : String} {i : ℕ} {rest : List String}
    (hd : fs.RealDir d) (hn : Plain n) (hf : fs.node (d ++ [n]) = some (.file i))
    (h : fs.walk f k [] (d ++ [n] ++ rest) = .ok q) : rest = [] ∧ q = d ++ [n] := by
  have hlong := FS.walk_mono (Nat.le_add_right k (1 + d.length)) h
  have hk : k + (1 + d.length) = (k + 1) + d.length := by omega
  rw [hk, List.append_assoc, FS.walk_dirs hd.1 fun r hr _ => by simpa using hd.2 r hr,
    List.nil_append, List.singleton_append, FS.walk_plain hn, hf] at hlong
  simp only at hlong
  split_ifs at hlong with hr
  exact ⟨hr, (Except.ok.inj hlong).symm⟩

/-- Where every link leads to a regular file, a lookup passes over directories only,
and ends at the path itself or at the target of the link there. -/
theorem walk_orderly : ∀ {k : ℕ} {cur q : Path} {rest : List String},
    (∀ n ∈ rest, Plain n) →
    (∀ p t, cur <+: p → fs.node p = some (.link t) → LeadsToFile fs t) →
    fs.walk true k cur rest = .ok q →
    (∀ r, r <+: rest → r ≠ rest → r ≠ [] → fs.isDir (cur ++ r) = true) ∧
      (q = cur ++ rest ∨ ∃ t, fs.node (cur ++ rest) = some (.link t) ∧ q = t.names) := by
  intro k
  induction k with
  | zero =>
    intro cur q rest _ _ h
    exact absurd h (by simp [FS.walk])
  | succ k ih =>
    intro cur q rest hp hl h
    cases rest with
    | nil =>
      refine ⟨fun r hr hne _ => absurd (List.prefix_nil.mp hr) hne, .inl ?_⟩
      rw [List.append_nil]
      exact FS.walk_nil h
    | cons a rest =>
      rw [FS.walk_plain (hp a (by simp))] at h
      -- where the lookup ends at `a`, there is no directory to pass over
      have hlast : rest = [] → ∀ r, r <+: a :: rest → r ≠ a :: rest → r ≠ [] →
          fs.isDir (cur ++ r) = true := by
        rintro rfl r hr hne hnil
        rcases List.prefix_cons_iff.mp hr with rfl | ⟨r', rfl, hr'⟩
        · exact absurd rfl hnil
        · exact absurd (by rw [List.prefix_nil.mp hr']) hne
      rcases hnode : fs.node (cur ++ [a]) with _ | ⟨m⟩ | ⟨i⟩ | ⟨t⟩
      · rw [hnode] at h
        simp only at h
        split_ifs at h with hr
        refine ⟨hlast hr, .inl ?_⟩
        rw [hr, ← Except.ok.inj h]
      · rw [hnode] at h
        obtain ⟨hdirs, hend⟩ := ih (fun n hn => hp n (by simp [hn]))
          (fun p t hpre => hl p t ((List.prefix_append cur [a]).trans hpre)) h
        refine ⟨fun r hr hne hnil => ?_, by simpa using hend⟩
        obtain ⟨b, r, rfl⟩ := List.exists_cons_of_ne_nil hnil
        obtain ⟨rfl, hr'⟩ := List.cons_prefix_cons.mp hr
        by_cases hrn : r = []
        · rw [hrn, FS.isDir_of_node (by simp) hnode]
          rfl
        · have := hdirs r hr' (fun hc => hne (by rw [hc])) hrn
          simpa using this
      · rw [hnode] at h
        simp only at h
        split_ifs at h with hr
        refine ⟨hlast hr, .inl ?_⟩
        rw [hr, ← Except.ok.inj h]
      · obtain ⟨habs, d, n, i, hnames, hd, hn, hf⟩ := hl _ t (List.prefix_append cur [a]) hnode
        rw [hnode] at h
        simp only [habs, if_true, Bool.true_eq_false, and_false, if_false, hnames] at h
        rw [hnames] at hf
        obtain ⟨hr, hq⟩ := walk_file hd hn hf h
        refine ⟨hlast hr, .inr ⟨t, ?_, ?_⟩⟩
        · rw [hr]
          exact hnode
        · rw [hnames, hq]

/-! ### The tiers in order -/

/-- The roots of the two tiers. -/
structure Tiers where
  scratch : Path
  cold : Path
  notCold : ¬ cold <+: scratch
  notScratch : ¬ scratch <+: cold

namespace Tiers

variable {T : Tiers}

theorem scratch_ne_nil (T : Tiers) : T.scratch ≠ [] := fun h =>
  T.notScratch (h ▸ List.nil_prefix)

/-- The two tiers share no path. -/
theorem apart {p : Path} (hs : T.scratch <+: p) (hc : T.cold <+: p) : False := by
  rcases List.prefix_or_prefix_of_prefix hs hc with h | h
  · exact T.notScratch h
  · exact T.notCold h

/-- Every link on the scratch tier is an archive link, and its cold file is there. -/
structure Orderly (T : Tiers) (fs : FS) : Prop where
  scratchDir : fs.RealDir T.scratch
  coldDir : fs.RealDir T.cold
  links : ∀ p t, T.scratch <+: p → fs.node p = some (.link t) →
    LeadsToFile fs t ∧ T.cold <+: t.names
  coldLinks : ∀ p t, T.cold <+: p → fs.node p ≠ some (.link t)

/-- The file that a node of the scratch tier leads to. -/
def FileAt (fs : FS) (p : Path) (i : ℕ) : Prop :=
  fs.node p = some (.file i) ∨ ∃ t, fs.node p = some (.link t) ∧ fs.node t.names = some (.file i)

/-- What a path on the scratch tier reads as. -/
theorem Orderly.reads_iff (ho : T.Orderly fs) {rest : List String} (hp : ∀ n ∈ rest, Plain n)
    {b : Bytes} : Reads fs (T.scratch ++ rest) b ↔
      (∀ r, r <+: rest → r ≠ rest → fs.isDir (T.scratch ++ r) = true) ∧
        ∃ i, FileAt fs (T.scratch ++ rest) i ∧ (fs.inode i).data = b := by
  constructor
  · intro h
    obtain ⟨k, q, i, hw, hn, hb⟩ := Posix.reads_iff.mp h
    have hlong := FS.walk_mono (Nat.le_add_right k T.scratch.length) hw
    rw [FS.walk_dirs ho.scratchDir.1 fun r hr _ => by simpa using ho.scratchDir.2 r hr,
      List.nil_append] at hlong
    obtain ⟨hdirs, hend⟩ := walk_orderly hp (fun p t hpre hl => (ho.links p t hpre hl).1) hlong
    refine ⟨fun r hr hne => ?_, i, ?_, hb⟩
    · by_cases hnil : r = []
      · rw [hnil, List.append_nil]
        exact ho.scratchDir.2 _ List.prefix_rfl
      · exact hdirs r hr hne hnil
    · rcases hend with rfl | ⟨t, ht, rfl⟩
      · exact .inl hn
      · exact .inr ⟨t, ht, hn⟩
  · rintro ⟨hdirs, i, hfile, rfl⟩
    rcases List.eq_nil_or_concat rest with rfl | ⟨d, n, rfl⟩
    · -- the scratch root itself is a directory
      have hd := ho.scratchDir.2 _ List.prefix_rfl
      rw [List.append_nil] at hfile
      rcases hfile with hf | ⟨t, ht, -⟩
      · rw [FS.isDir_of_node T.scratch_ne_nil hf] at hd
        exact absurd hd (by simp [Node.isDir])
      · rw [FS.isDir_of_node T.scratch_ne_nil ht] at hd
        exact absurd hd (by simp [Node.isDir])
    · rw [List.concat_eq_append] at *
      have hd : fs.RealDir (T.scratch ++ d) := by
        refine ⟨fun m hm => ?_, fun r hr => ?_⟩
        · rcases List.mem_append.mp hm with hm | hm
          · exact ho.scratchDir.1 m hm
          · exact hp m (by simp [hm])
        · rcases List.prefix_or_prefix_of_prefix hr (List.prefix_append _ _) with h | ⟨r', rfl⟩
          · exact ho.scratchDir.2 r h
          · have hr' := (List.prefix_append_right_inj T.scratch).mp hr
            refine hdirs r' (hr'.trans (List.prefix_append _ _)) ?_
            rintro rfl
            have := hr'.length_le
            rw [List.length_append, List.length_singleton] at this
            omega
      have hn : Plain n := hp n (by simp)
      rw [← List.append_assoc] at hfile ⊢
      rcases hfile with hf | ⟨t, ht, hf⟩
      · exact reads_file hd hn hf
      · obtain ⟨⟨habs, d', n', j, hnames, hd', hn', hj⟩, -⟩ := ho.links _ t
          (by simp) ht
        refine reads_link hd hn ht habs ?_
        rw [hnames] at hf ⊢
        exact reads_file hd' hn' hf

/-- Every path on the scratch tier but `p` reads as it did. -/
def Untouched (T : Tiers) (fs : FS) (p : Path) (fs' : FS) : Prop :=
  ∀ rest, (∀ n ∈ rest, Plain n) → T.scratch ++ rest ≠ p →
    ∀ b, Reads fs' (T.scratch ++ rest) b ↔ Reads fs (T.scratch ++ rest) b

/-- A change that keeps the other nodes of the scratch tier, which of them are
directories, the targets of the links, and the bytes of every file. -/
theorem untouched_of_same {p : Path} (ho : T.Orderly fs) (ho' : T.Orderly fs')
    (hdir : ∀ q, T.scratch <+: q → fs'.isDir q = fs.isDir q)
    (hnode : ∀ q, T.scratch <+: q → q ≠ p → fs'.node q = fs.node q)
    (htarget : ∀ q t, T.scratch <+: q → fs.node q = some (.link t) →
      fs'.node t.names = fs.node t.names ∨ q = p)
    (hdata : ∀ i < fs.nextIno, fs'.inode i = fs.inode i) : T.Untouched fs p fs' := by
  intro rest hp hne b
  have hpre : T.scratch <+: T.scratch ++ rest := List.prefix_append _ _
  have hn := hnode _ hpre hne
  have hat : ∀ i, FileAt fs' (T.scratch ++ rest) i ↔ FileAt fs (T.scratch ++ rest) i := by
    intro i
    unfold FileAt
    rw [hn]
    refine or_congr_right (exists_congr fun t => and_congr_right fun ht => ?_)
    rw [(htarget _ t hpre ht).resolve_right hne]
  have hlt : ∀ i, FileAt fs (T.scratch ++ rest) i → i < fs.nextIno := by
    rintro i (hf | ⟨t, -, hf⟩)
    · exact fs.fresh _ _ hf
    · exact fs.fresh _ _ hf
  rw [ho'.reads_iff hp, ho.reads_iff hp]
  refine and_congr ?_ (exists_congr fun i => ?_)
  · refine forall_congr' fun r => imp_congr_right fun _ => imp_congr_right fun _ => ?_
    rw [hdir _ (List.prefix_append _ _)]
  · rw [hat]
    refine and_congr_right fun hi => ?_
    rw [hdata i (hlt i hi)]

end Tiers

end Scratch
