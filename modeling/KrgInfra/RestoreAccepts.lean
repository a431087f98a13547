/-
Which archive links `restore_one` lets through.

scratch-overflow computes the cold path of a file from the one pair it works on;
scratch-restore looks the pair up again, by the first scratch root in its list that
the link lies under.  With nested scratch roots the list's order decides whether the
two are the same pair.

* `archive_target_answer` — what the checks answer on an archive link;
* `pairOf_eq_iff` — when the search finds the pair of the archive;
* `restore_accepts_iff` — an archive link is let through, as a link of its own pair, exactly
  when no pair listed before contains it.
-/
import KrgInfra.ScratchRoundTrip

namespace Scratch

open Posix

/-- `dir/name` is listed under the scratch root of a pair, and is a link to the same
place below the cold root, which is no link.  There are no links on the way to either,
and neither root is `/`. -/
structure ArchiveLink (scratch cold sub : Path) (name : String) (h : Host) : Prop where
  scratchRoot : scratch ≠ []
  coldRoot : cold ≠ []
  realDir : h.fs.RealDir (scratch ++ sub)
  plain : Plain name
  link : h.fs.node (scratch ++ sub ++ [name]) = some (.link ⟨true, cold ++ sub ++ [name]⟩)
  realCold : h.fs.RealDir (cold ++ sub)
  noLink : ∀ t, h.fs.node (cold ++ sub ++ [name]) ≠ some (.link t)

/-- The link that `archive_one` leaves is one. -/
theorem Demotion.moved_archiveLink {d : Demotion} (hs : d.Start) (hf : d.Fair) (hreg : d.Regular)
    {dry_run : Bool} {reason : Reason} {t : Target}
    (hlink : (d.moved dry_run reason).fs.node d.src = some (.link t)) :
    ArchiveLink d.scratch d.cold d.sub d.name (d.moved dry_run reason) := by
  have hw := swapped_of_link hs hf hreg hlink
  obtain ⟨hd, i, hn, -, -⟩ := hw.copy
  refine ⟨?_, ?_, hw.frame.realDir hs.realSrc, hs.plain, hw.link, hd, fun t ht => ?_⟩
  · intro h
    exact hs.notScratch (h ▸ List.nil_prefix)
  · intro h
    exact hs.notCold (h ▸ List.nil_prefix)
  · exact absurd (hn.symm.trans ht) (by simp)

/-! ### Paths under a root -/

theorem under_append {r : Path} (hr : r ≠ []) (p : Path) : under (r ++ p) r = true := by
  have hpre : r.isPrefixOf (r ++ p) = true := List.isPrefixOf_iff_prefix.mpr (List.prefix_append r p)
  simp [under, hr, hpre]

theorem under_any_of_mem {p r : Path} {roots : List Path} (hr : r ∈ roots)
    (hp : under p r = true) : under_any p roots = true :=
  List.any_eq_true.mpr ⟨r, hr, hp⟩

theorem under_any_singleton (p r : Path) : under_any p [r] = under p r := by
  rw [under_any, List.any_cons, List.any_nil, Bool.or_false]

/-- The search stops at the first pair whose scratch root the link lies under. -/
theorem pairOf_eq_iff {p : Path} {pairs : List (Path × Path)} {pair : Path × Path}
    (hp : under p pair.1 = true) :
    pairOf p pairs = some pair ↔
      ∃ pre post, pairs = pre ++ pair :: post ∧ ∀ q ∈ pre, under p q.1 = false := by
  rw [pairOf, List.find?_eq_some_iff_append]
  simp only [under_any_singleton, hp, true_and, Bool.not_eq_eq_eq_not, Bool.not_true]

namespace ArchiveLink

variable {scratch cold sub : Path} {name : String} {h : Host}

theorem realpath_dirname (hl : ArchiveLink scratch cold sub name h) :
    h.fs.realpath (dirname (scratch ++ sub ++ [name])) = scratch ++ sub := by
  rw [dirname, List.dropLast_concat]
  exact FS.realpath_dir hl.realDir

theorem realpath_target (hl : ArchiveLink scratch cold sub name h) :
    h.fs.realpath (cold ++ sub ++ [name]) = cold ++ sub ++ [name] :=
  FS.realpath_real hl.realCold hl.plain hl.noLink

/-- The checks on the containment of the target, once the pair is found. -/
theorem contained_of_pairOf (hl : ArchiveLink scratch cold sub name h) {cold_roots : List Path}
    {pairs : List (Path × Path)} (hcold : cold ∈ cold_roots)
    (hpair : pairOf (scratch ++ sub) pairs = some (scratch, cold)) :
    contained h.fs (scratch ++ sub ++ [name]) (scratch ++ sub) (cold ++ sub ++ [name]) cold_roots
      pairs = true := by
  have hbase : basename (scratch ++ sub ++ [name]) = name := by simp [basename]
  have hrel : relpath (join (scratch ++ sub) [name]) scratch = sub ++ [name] := by
    rw [join, List.append_assoc, relpath_append _ _ (by simp)]
  have hexp : expectedTarget h.fs (scratch ++ sub ++ [name]) (scratch ++ sub) pairs =
      some (cold ++ sub ++ [name]) := by
    rw [expectedTarget, hpair, Option.map_some, hbase, hrel, join, ← List.append_assoc,
      hl.realpath_target]
  have hroot : under_any (cold ++ sub ++ [name]) cold_roots = true := by
    rw [List.append_assoc]
    exact under_any_of_mem hcold (under_append hl.coldRoot _)
  rw [contained, hroot, hexp]
  simp

end ArchiveLink

/-! ### The checks -/

/-- Nobody else is at work, and the two calls of the checks raise no error. -/
structure RestoreEnv.Calm (env : RestoreEnv) : Prop where
  quiet : ∀ i h, env.before i h = h
  islink : env.outcome .islink = .ok
  readlink : env.outcome .readlink = .ok

section Checks

variable {env : RestoreEnv} {h : Host} {α : Type}

/-- A call that looks at a known host, and is not made to raise. -/
theorem rsys_ask_at (hquiet : ∀ i h, env.before i h = h) {i : RestoreSite}
    (hok : env.outcome i = .ok) {f : FS → Except OSError α} {a : α} (hf : f h.fs = .ok a) :
    Triple (fun _ => True) (· = h) (rsys env i (ask f)) (fun b h' => b = a ∧ h' = h)
      (fun _ _ => False) := by
  have hact : ask f h = (.ok a, h) := by rw [ask, Work.query, hf]
  refine (Triple.call_at (hquiet i h)).conseq (fun _ _ h => h) ?_ ?_
  · rintro b h' - ⟨-, hb⟩
    rw [hact, Prod.mk.injEq, Except.ok.injEq] at hb
    exact ⟨hb.1.symm, hb.2.symm⟩
  · rintro e h' - (⟨-, he⟩ | ⟨done, ho, -⟩)
    · rw [hact] at he
      exact absurd (Prod.mk.inj he).1 (by simp)
    · exact absurd (hok.symm.trans ho) (by simp)

theorem peek_at {f : Host → α} {E : OSError → Host → Prop} :
    Triple (fun _ => True) (· = h) (peek f) (fun a h' => a = f h ∧ h' = h) E := by
  rintro t hI rfl
  exact ⟨hI, rfl, rfl⟩

/-- On an archive link in one of the scratch roots everything hangs on the checks of
the target. -/
theorem archive_target_answer {scratch cold sub : Path} {name : String} (hc : env.Calm)
    (hl : ArchiveLink scratch cold sub name h) {scratch_roots : List Path}
    (hroot : scratch_roots = [] ∨ scratch ∈ scratch_roots) (cold_roots : List Path)
    (pairs : List (Path × Path)) :
    Triple (fun _ => True) (· = h)
      (archive_target env (scratch ++ sub ++ [name]) scratch_roots cold_roots pairs)
      (fun o _ => o = if contained h.fs (scratch ++ sub ++ [name]) (scratch ++ sub)
        (cold ++ sub ++ [name]) cold_roots pairs then some (cold ++ sub ++ [name]) else none)
      (fun _ _ => False) := by
  have hlocate := FS.locate_real hl.realDir hl.plain
  have hlstat : h.fs.lstat (scratch ++ sub ++ [name]) =
      .ok ⟨.link ⟨true, cold ++ sub ++ [name]⟩, none, 0, 0, ⟨0, 0, 0o777#12⟩, 0, 0, 0⟩ := by
    rw [FS.lstat, hlocate]
    show h.fs.statAt _ = _
    rw [FS.statAt, hl.link]
  have hreadlink : h.fs.readlink (scratch ++ sub ++ [name]) =
      .ok ⟨true, cold ++ sub ++ [name]⟩ := by
    rw [FS.readlink, hlocate]
    simp only [bind, Except.bind, hl.link]
  have hin : ¬ (scratch_roots ≠ [] ∧ under_any (scratch ++ sub) scratch_roots = false) := by
    rintro ⟨hne, hout⟩
    rw [under_any_of_mem (hroot.resolve_left hne) (under_append hl.scratchRoot sub)] at hout
    exact absurd hout (by simp)
  -- the link is one
  refine Triple.bind (Q := fun is_link h' => is_link = true ∧ h' = h) ?_ fun is_link =>
    Triple.of_fact ?_
  · refine Triple.map (Q := fun st h' => st.map (fun st => st.node.isLink) = some true ∧ h' = h)
      (Triple.attempt ((rsys_ask_at hc.quiet hc.islink hlstat).conseq (fun _ _ h => h) ?_ ?_)) ?_
    · rintro st h' - ⟨rfl, rfl⟩
      exact ⟨rfl, rfl⟩
    · exact fun _ _ _ hF => hF.elim
    · rintro st h' - ⟨hst, rfl⟩
      exact ⟨by rw [hst, Option.getD_some], rfl⟩
  rintro rfl
  -- its directory is under its scratch root
  refine Triple.bind peek_at fun link_parent => Triple.of_fact ?_
  rintro rfl
  rw [hl.realpath_dirname]
  show Triple _ _ (if _ then _ else _) _ _
  rw [if_neg hin]
  refine Triple.bind (rsys_ask_at hc.quiet hc.readlink hreadlink) fun t => Triple.of_fact ?_
  rintro rfl
  refine Triple.bind peek_at fun target => Triple.of_fact ?_
  rintro rfl
  refine Triple.bind peek_at fun ok => Triple.of_fact ?_
  rintro rfl
  refine Triple.pure ?_
  rintro h' - -
  show (if contained h.fs _ _ (h.fs.realpath (cold ++ sub ++ [name])) _ _ then
    some (h.fs.realpath (cold ++ sub ++ [name])) else none) = _
  rw [hl.realpath_target]

end Checks

/-- The pair of an archive link is found again, and the link is not refused. -/
def Accepts (env : RestoreEnv) (scratch cold sub : Path) (name : String)
    (scratch_roots cold_roots : List Path) (pairs : List (Path × Path)) (h : Host) : Prop :=
  pairOf (h.fs.realpath (dirname (scratch ++ sub ++ [name]))) pairs = some (scratch, cold) ∧
    (outcomeOf (archive_target env (scratch ++ sub ++ [name]) scratch_roots cold_roots pairs)
      h).1.toOption = some (some (cold ++ sub ++ [name]))

/-- A link that `archive_one` leaves is one whose pair `restore_one` finds again, and
lets through, exactly when no pair listed before its own contains the link. -/
theorem restore_accepts_iff {env : RestoreEnv} (hc : env.Calm) {scratch cold : Path}
    {scratch_roots cold_roots : List Path}
    (hroot : scratch_roots = [] ∨ scratch ∈ scratch_roots) (hcold : cold ∈ cold_roots) :
    (∀ (d : Demotion) (dry_run : Bool) (reason : Reason) (t : Target), d.Start → d.Fair →
        d.Regular → (d.moved dry_run reason).fs.node d.src = some (.link t) →
      ArchiveLink d.scratch d.cold d.sub d.name (d.moved dry_run reason)) ∧
    ∀ (pairs : List (Path × Path)) (sub : Path) (name : String) (h : Host),
      ArchiveLink scratch cold sub name h →
      (Accepts env scratch cold sub name scratch_roots cold_roots pairs h ↔
        ∃ pre post, pairs = pre ++ (scratch, cold) :: post ∧
          ∀ pair ∈ pre, under (scratch ++ sub) pair.1 = false) := by
  refine ⟨fun d dry_run reason t hs hf hreg hlink => d.moved_archiveLink hs hf hreg hlink, ?_⟩
  intro pairs sub name h hl
  rw [Accepts, hl.realpath_dirname, ← pairOf_eq_iff (under_append hl.scratchRoot sub)]
  refine and_iff_left_of_imp fun hpair => ?_
  have hrun := (archive_target_answer hc hl hroot cold_roots pairs).of_start trivial rfl
  rw [hl.contained_of_pairOf hcold hpair] at hrun
  cases hr : outcomeOf (archive_target env (scratch ++ sub ++ [name]) scratch_roots cold_roots
    pairs) h with
  | mk r t =>
    rw [hr] at hrun
    cases r with
    | ok o => exact congrArg some hrun.2
    | error e => exact hrun.2.elim

namespace Demotion

theorem admin_calm : RestoreEnv.Calm admin := ⟨fun _ _ => rfl, rfl, rfl⟩

theorem accepts_alone :
    Accepts admin ["scratch"] ["cold"] [] "a" [["scratch"]] [["cold"]] [(["scratch"], ["cold"])]
      ((alone 0o644#12).moved false .ttl) := by
  have h := restore_accepts_iff admin_calm
    (.inr (List.mem_singleton_self ["scratch"])) (List.mem_singleton_self ["cold"])
  have hl := h.1 (alone 0o644#12) false .ttl ⟨true, ["cold", "a"]⟩ (alone_start _) (alone_fair _)
    (alone_regular _) (by decide +kernel)
  exact (h.2 _ _ _ _ hl).mpr ⟨[], [], rfl, by simp⟩

/-- A scratch root inside another, with a cold root of its own, and one file. -/
def nestedTiers (f : Inode) : FS :=
  ((((emptyTiers.setNode ["cold2"] (.dir ⟨0, 0, 0o755#12⟩) (by decide)).setNode ["scratch", "lab"]
    (.dir ⟨0, 0, 0o755#12⟩) (by decide)).newInode f).setNode ["scratch", "lab", "a"] (.file 0)
    ⟨by decide, rfl, fun _ => rfl, rfl⟩)

/-- The file of the inner root. -/
def nested : Demotion where
  sha256 b := toString b.length
  env := { cp := ⟨2, fun _ _ => 1⟩, urandomPart := "0", urandomLink := "1" }
  scratch := ["scratch", "lab"]
  cold := ["cold2"]
  sub := []
  name := "a"
  h₀ := { fs := nestedTiers ⟨[1, 2, 3], ⟨1000, 100, 0o644#12⟩, 0, 0, 0⟩, latest := some [1, 2, 3] }
  i₀ := 0

theorem nested_start : nested.Start where
  realSrc := (FS.realDir_nil.concat (n := "scratch") (by decide) rfl).concat (n := "lab")
    (by decide) rfl
  plain := show Plain "a" by decide
  realCold := FS.realDir_nil.concat (by decide) rfl
  notCold := show ¬ ["cold2"] <+: ["scratch", "lab"] by decide
  notScratch := show ¬ ["scratch", "lab"] <+: ["cold2"] by decide
  uniquePart := show tmpName "so" "0" ≠ "a" by decide
  uniqueLink := show tmpName "so" "1" ≠ "a" by decide

theorem nested_regular : nested.Regular := ⟨rfl, rfl⟩

theorem nested_fair : nested.Fair where
  first := rfl
  late _ _ := rfl
  regular _ _ := nested_regular
  changes _ _ _ _ h := absurd h List.not_mem_nil
  stored _ h := absurd h (by simp [nested])

/-- With the outer pair listed first, the link that `archive_one` leaves in the inner
root is refused. -/
theorem nested_refused :
    nested.Start ∧ nested.Fair ∧ nested.Regular ∧
      (nested.moved false .ttl).fs.node nested.src = some (.link ⟨true, nested.dest⟩) ∧
      ¬ Accepts admin nested.scratch nested.cold nested.sub nested.name
        [["scratch"], ["scratch", "lab"]] [["cold"], ["cold2"]]
        [(["scratch"], ["cold"]), (["scratch", "lab"], ["cold2"])] (nested.moved false .ttl) ∧
      (nested.restored admin [["scratch"], ["scratch", "lab"]] [["cold"], ["cold2"]]
        [(["scratch"], ["cold"]), (["scratch", "lab"], ["cold2"])] false
        (nested.moved false .ttl)).1.toOption = some false :=
  ⟨nested_start, nested_fair, nested_regular, by decide +kernel,
    fun h => absurd h.1 (by decide +kernel), by decide +kernel⟩

end Demotion

end Scratch
