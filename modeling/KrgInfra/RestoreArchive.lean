/-
Which file a restore reads and removes.

`restore_one` compares the target of a link with the real path of the link's archive location,
cold root and relative path.  Where a name below the cold root is a link the two may agree on
somebody else's file.

* `Confined` — what a state of a restore may have changed, and where new bytes come from;
* `Straight` — no link lies below the cold root on the way to the archive location;
* `restore_confined_iff` — every restore of a link is confined exactly when it is straight;
* `planted_link_followed` — a link below the cold root, and the file that is lost.
-/
import KrgInfra.RestoreAccepts
import KrgInfra.RestoreGranted

namespace Scratch

open Posix

/-! ### Which restores are granted -/

section Checks

variable {sha256 : Bytes → String} {env : RestoreEnv} {h₀ : Host} {link target : Path}
  {scratch_roots cold_roots : List Path} {pairs : List (Path × Path)} {keep_cold : Bool}

/-- A regular file is found at the target of an admitted link. -/
theorem granted_of_admitted (hquiet : ∀ i h, env.before i h = h)
    (hatomic : ∀ e, env.outcome .replaceLink ≠ .raise e true)
    (hroot : ∀ n, h₀.fs.node [] = some n → n.isDir = true) (hcanon : Canonical h₀.fs link)
    (hfree : h₀.fs.node (partPlace h₀.fs env.urandom link) = none)
    (hadm : Admitted h₀.fs link target scratch_roots cold_roots pairs) {st : FS.Stat}
    (hstat : h₀.fs.stat target = .ok st) (hfile : st.node.isFile = true) :
    ∃ i₀, Granted env h₀ link target i₀ := by
  have hrooted : Rooted h₀.fs := fun t ht => absurd (hroot _ ht) (by simp [Node.isDir])
  obtain ⟨t, hread, hnode, rfl⟩ := hadm.isLink
  obtain ⟨hlink, hplain, -⟩ := place_of_readlink hrooted hread
  obtain ⟨q, hq, -⟩ := FS.readlink_ok hread
  have hq' := hq
  rw [hlink] at hq'
  obtain ⟨hdir, rfl⟩ := FS.locate_concat hplain hq'
  have hlinkFree := hcanon t st hread hstat
  have hregular : h₀.fs.node (h₀.fs.realpath (absolute link t)) = some st.node := by
    unfold FS.stat at hstat
    cases hr : h₀.fs.resolve (h₀.fs.realpath (absolute link t)) with
    | error e =>
      rw [hr] at hstat
      exact absurd hstat (by simp [bind, Except.bind])
    | ok p =>
      rw [hr] at hstat
      rw [← hlinkFree.resolve hr]
      exact FS.node_of_statAt hstat
  cases hn : st.node with
  | dir m => exact absurd hfile (by simp [hn, Node.isFile])
  | link t => exact absurd hfile (by simp [hn, Node.isFile])
  | file i =>
    rw [hn] at hregular
    refine ⟨i, hquiet, hatomic, hdir, hq, ⟨t, hnode⟩, ?_, hfree, ?_, hlinkFree, hregular⟩
    -- the lookup of the temporary takes the steps of the lookup of the link
    · have hnone : h₀.fs.node (h₀.fs.realpath (dirname link) ++ [tmpName "sr" env.urandom]) =
          none := hfree
      exact FS.locate_sibling (tmpName_plain _ _) hq' (by simp [FS.isDir, hnone])
    · intro hnil
      rw [hnil] at hregular
      exact absurd (hroot _ hregular) (by simp [Node.isDir])

/-- Where no file is found at an admitted target, nothing changes. -/
theorem restore_one_refused (sha256 : Bytes → String) (keep_cold : Bool)
    (hquiet : ∀ i h, env.before i h = h)
    (hroot : ∀ n, h₀.fs.node [] = some n → n.isDir = true)
    (hno : ∀ target st, Admitted h₀.fs link target scratch_roots cold_roots pairs →
      h₀.fs.stat target = .ok st → st.node.isFile = false) :
    Triple (· = h₀) (· = h₀)
      (restore_one sha256 env link scratch_roots cold_roots pairs keep_cold)
      (fun ok h => ok = false ∧ h = h₀) (fun _ h => h = h₀) := by
  have hrooted : Rooted h₀.fs := fun t ht => absurd (hroot _ ht) (by simp [Node.isDir])
  refine Triple.bind (archive_target_rule hquiet hrooted) fun o => Triple.of_fact fun ho => ?_
  cases o with
  | none => exact Triple.pure fun _ _ h => ⟨rfl, h⟩
  | some target =>
    refine Triple.bind (Q := fun tst h => (∀ st, tst = some st → h₀.fs.stat target = .ok st) ∧
      h = h₀) (Triple.attempt ((looks hquiet).conseq (fun _ _ h => h) ?_ ?_)) fun tst =>
        Triple.of_fact fun htst => ?_
    · rintro st h - ⟨rfl, hst⟩
      refine ⟨fun st' h => ?_, rfl⟩
      rw [← Option.some_inj.mp h]
      exact hst
    · rintro e h - rfl
      exact ⟨fun st h => absurd h (by simp), rfl⟩
    cases tst with
    | none => exact Triple.pure fun _ _ h => ⟨rfl, h⟩
    | some st =>
      show Triple _ _ (if _ then _ else _) _ _
      rw [if_pos (hno target st (ho target rfl) (htst st rfl))]
      exact Triple.pure fun _ _ h => ⟨rfl, h⟩

end Checks

/-! ### The archive location of a link -/

/-- No link lies on the way from `root` down to `p`. -/
def NoLinkBelow (fs : FS) (root p : Path) : Prop :=
  ∀ q t, root <+: q → q ≠ root → q <+: p → fs.node q ≠ some (.link t)

/-- Where the pair of a link has its archive: below the cold root, by the path of the link
relative to the scratch root. -/
def archivePath (fs : FS) (link : Path) (pair : Path × Path) : Path :=
  join pair.2 (relpath (linkPlace fs link) pair.1)

/-- `p` is the archive location of the link, and no link is passed below the cold root. -/
def ArchivedAt (fs : FS) (link : Path) (pairs : List (Path × Path)) (p : Path) : Prop :=
  ∃ pair, pairOf (fs.realpath (dirname link)) pairs = some pair ∧
    p = archivePath fs link pair ∧ NoLinkBelow fs pair.2 p

/-- The directory of the link lies under a scratch root, of the pairs and of the list. -/
def UnderRoots (fs : FS) (link : Path) (scratch_roots : List Path) (pairs : List (Path × Path)) :
    Prop :=
  (∃ pair ∈ pairs, under_any (fs.realpath (dirname link)) [pair.1] = true) ∧
    (scratch_roots = [] ∨ under_any (fs.realpath (dirname link)) scratch_roots = true)

/-- What the file system may be during a restore that began with `fs₀`: what was in a file still
is; a new file holds bytes of the file at the archive location only, or what the storage gives
back for them; and a name has changed only at the archive location, where it is gone, or in the
link's own directory, where it is that of the link or a free one and names a new file. -/
structure Confined (fs₀ : FS) (stored : Option Bytes) (link : Path) (scratch_roots : List Path)
    (pairs : List (Path × Path)) (fs : FS) : Prop where
  inode : ∀ i < fs₀.nextIno, fs.inode i = fs₀.inode i
  reads : ∀ fd, fs₀.nextIno ≤ fd → fd < fs.nextIno → (fs.inode fd).data ≠ [] →
    stored = some (fs.inode fd).data ∨ ∃ p i, ArchivedAt fs₀ link pairs p ∧
      fs₀.node p = some (.file i) ∧ (fs.inode fd).data <+: (fs₀.inode i).data
  names : ∀ p, fs.node p = fs₀.node p ∨ (fs.node p = none ∧ ArchivedAt fs₀ link pairs p) ∨
    dirname p = fs₀.realpath (dirname link) ∧ UnderRoots fs₀ link scratch_roots pairs ∧
      (fs₀.node p = none ∨ p = linkPlace fs₀ link) ∧
      ∃ fd, fs₀.nextIno ≤ fd ∧ fs.node p = some (.file fd)

/-- Everything that was there is there, as it was. -/
def Intact (fs₀ fs : FS) : Prop :=
  (∀ p n, fs₀.node p = some n → fs.node p = some n) ∧
    ∀ i < fs₀.nextIno, fs.inode i = fs₀.inode i

/-- All states of one restore are confined, and unless it succeeds it leaves what was there. -/
def Confines (sha256 : Bytes → String) (env : RestoreEnv) (h₀ : Host) (link : Path)
    (scratch_roots cold_roots : List Path) (pairs : List (Path × Path)) (keep_cold : Bool) : Prop :=
  let ran := outcomeOf (restore_one sha256 env link scratch_roots cold_roots pairs keep_cold) h₀
  (∀ h ∈ ran.2.states, Confined h₀.fs env.stored link scratch_roots pairs h.fs) ∧
    (ran.1.toOption ≠ some true → Intact h₀.fs ran.2.now.fs)

/-- Nobody else is at work, and a rename that raises has changed nothing. -/
structure Alone (env : RestoreEnv) : Prop where
  quiet : ∀ i h, env.before i h = h
  atomic : ∀ e, env.outcome .replaceLink ≠ .raise e true

/-- The archive location of a link that the checks let through to a file passes no link below
the cold root. -/
def Straight (fs : FS) (link : Path) (scratch_roots cold_roots : List Path)
    (pairs : List (Path × Path)) : Prop :=
  ∀ target st, Admitted fs link target scratch_roots cold_roots pairs →
    fs.stat target = .ok st → st.node.isFile = true →
    ∀ pair, pairOf (fs.realpath (dirname link)) pairs = some pair →
      NoLinkBelow fs pair.2 (archivePath fs link pair)

section Archive

variable {sha256 : Bytes → String} {env : RestoreEnv} {h₀ : Host} {link target : Path} {i₀ : ℕ}
  {scratch_roots cold_roots : List Path} {pairs : List (Path × Path)} {keep_cold : Bool}

theorem confined_refl {fs : FS} {stored : Option Bytes} :
    Confined fs stored link scratch_roots pairs fs :=
  ⟨fun _ _ => rfl, fun _ h h' => absurd h' (Nat.not_lt.mpr h), fun _ => .inl rfl⟩

theorem intact_refl (fs : FS) : Intact fs fs := ⟨fun _ _ h => h, fun _ _ => rfl⟩

theorem append_of_under {p r : Path} (h : under p r = true) : ∃ s, p = r ++ s := by
  rw [under, Bool.or_eq_true, beq_iff_eq, Bool.and_eq_true] at h
  obtain rfl | ⟨-, h⟩ := h
  · exact ⟨[], by simp⟩
  · obtain ⟨s, rfl⟩ := List.isPrefixOf_iff_prefix.mp h
    exact ⟨s, rfl⟩

/-- Real cold roots with no link below are link-free all the way. -/
theorem linkFree_archivePath {fs : FS} {pair : Path × Path}
    (hdir : fs.RealDir (fs.realpath (dirname link))) (hplain : Plain (basename link))
    (hpair : under (fs.realpath (dirname link)) pair.1 = true) (hreal : fs.LinkFree pair.2)
    (hno : NoLinkBelow fs pair.2 (archivePath fs link pair)) :
    fs.LinkFree (archivePath fs link pair) := by
  obtain ⟨s, hs⟩ := append_of_under hpair
  have hpath : archivePath fs link pair = pair.2 ++ (s ++ [basename link]) := by
    rw [archivePath, linkPlace, hs, List.append_assoc, relpath_append _ _ (by simp), join]
  refine ⟨fun n hn => ?_, fun q t hne hq => ?_⟩
  · rw [hpath, List.mem_append, List.mem_append, List.mem_singleton] at hn
    obtain hn | hn | rfl := hn
    · exact hreal.1 n hn
    · exact hdir.1 n (by rw [hs]; exact List.mem_append_right _ hn)
    · exact hplain
  · have hroot : pair.2 <+: archivePath fs link pair := by
      rw [hpath]
      exact List.prefix_append _ _
    -- a link at or above the cold root is on the real root's way, any other one is below
    obtain hq' | hq' := List.prefix_or_prefix_of_prefix hq hroot
    · exact hreal.2 q t hne hq'
    · by_cases heq : q = pair.2
      · rw [heq]
        exact hreal.2 _ t (heq ▸ hne) List.prefix_rfl
      · exact hno q t hq' heq hq

theorem mem_of_pairOf {p : Path} {pair : Path × Path} (h : pairOf p pairs = some pair) :
    pair ∈ pairs ∧ under_any p [pair.1] = true :=
  ⟨List.mem_of_find?_eq_some h,
    List.find?_some (p := fun pair : Path × Path => under_any p [pair.1]) h⟩

/-- The pair whose archive location the checks have compared the target with. -/
theorem pair_of_admitted (hpairs : pairs ≠ [])
    (hadm : Admitted h₀.fs link target scratch_roots cold_roots pairs) :
    ∃ pair, pairOf (h₀.fs.realpath (dirname link)) pairs = some pair ∧
      target = h₀.fs.realpath (archivePath h₀.fs link pair) := by
  obtain ⟨pair, hpair, htarget⟩ := Option.map_eq_some_iff.mp (hadm.pair.resolve_left hpairs)
  exact ⟨pair, hpair, htarget.symm⟩

theorem underRoots_of_admitted (hpairs : pairs ≠ [])
    (hadm : Admitted h₀.fs link target scratch_roots cold_roots pairs) :
    UnderRoots h₀.fs link scratch_roots pairs := by
  obtain ⟨pair, hpair, -⟩ := pair_of_admitted hpairs hadm
  exact ⟨⟨pair, mem_of_pairOf hpair⟩, hadm.scratch⟩

/-- The target is the archive location, if no link is passed below the cold root. -/
theorem archivedAt_target (hg : Granted env h₀ link target i₀) (hpairs : pairs ≠ [])
    (hreal : ∀ pair ∈ pairs, h₀.fs.LinkFree pair.2)
    (hroot : Rooted h₀.fs)
    (hadm : Admitted h₀.fs link target scratch_roots cold_roots pairs)
    (hno : ∀ pair, pairOf (h₀.fs.realpath (dirname link)) pairs = some pair →
      NoLinkBelow h₀.fs pair.2 (archivePath h₀.fs link pair)) :
    ArchivedAt h₀.fs link pairs target := by
  obtain ⟨pair, hpair, htarget⟩ := pair_of_admitted hpairs hadm
  obtain ⟨t, hread, -⟩ := hadm.isLink
  obtain ⟨hmem, hunder⟩ := mem_of_pairOf hpair
  rw [under_any_singleton] at hunder
  have hfree := linkFree_archivePath hg.realDir (place_of_readlink hroot hread).2.1 hunder
    (hreal pair hmem) (hno pair hpair)
  have hself : h₀.fs.realpath (archivePath h₀.fs link pair) = archivePath h₀.fs link pair :=
    FS.realpathFrom_linkFree
      (show h₀.fs.LinkFree ([] ++ archivePath h₀.fs link pair) from hfree)
  rw [hself] at htarget
  exact ⟨pair, hpair, htarget, htarget ▸ hno pair hpair⟩

/-- A state of a granted restore is confined, if its target is the archive location. -/
theorem Granted.confined (hg : Granted env h₀ link target i₀)
    (harch : ArchivedAt h₀.fs link pairs target)
    (hroots : UnderRoots h₀.fs link scratch_roots pairs) {h : Host}
    (hs : Granted.Safe env h₀ link target i₀ h) :
    Confined h₀.fs env.stored link scratch_roots pairs h.fs := by
  have hreads : (∀ fd, h₀.fs.nextIno ≤ fd → fd < h.fs.nextIno →
      OfFile env h₀ i₀ (h.fs.inode fd).data) → ∀ fd, h₀.fs.nextIno ≤ fd → fd < h.fs.nextIno →
      (h.fs.inode fd).data ≠ [] → env.stored = some (h.fs.inode fd).data ∨
        ∃ p i, ArchivedAt h₀.fs link pairs p ∧ h₀.fs.node p = some (.file i) ∧
          (h.fs.inode fd).data <+: (h₀.fs.inode i).data := by
    intro hbytes fd hfd hfd' _
    obtain hpre | hst := hbytes fd hfd hfd'
    · exact .inr ⟨target, i₀, harch, hg.regular, hpre⟩
    · exact .inl hst
  have hpart : dirname (partPlace h₀.fs env.urandom link) = h₀.fs.realpath (dirname link) :=
    List.dropLast_concat
  have hlink : dirname (linkPlace h₀.fs link) = h₀.fs.realpath (dirname link) :=
    List.dropLast_concat
  obtain hi | hp := hs
  · refine ⟨fun i hi' => hi.frame.inode i hi' fun hF => hF, hreads hi.bytes, fun p => ?_⟩
    by_cases hpp : p = partPlace h₀.fs env.urandom link
    · subst hpp
      obtain hn | ⟨fd, hfd, hn⟩ := hi.tmp
      · exact .inl (hn.trans hg.free.symm)
      · exact .inr (.inr ⟨hpart, hroots, .inl hg.free, fd, hfd, hn⟩)
    · exact .inl (hi.frame.node p hpp)
  · refine ⟨fun i hi' => hp.frame.inode i hi' fun hF => hF, hreads hp.bytes, fun p => ?_⟩
    by_cases hpp : p = partPlace h₀.fs env.urandom link
    · exact .inl (by rw [hpp, hp.tmp, hg.free])
    by_cases hpl : p = linkPlace h₀.fs link
    · obtain ⟨fd, hfd, hn⟩ := hp.file
      exact .inr (.inr ⟨by rw [hpl, hlink], hroots, .inr hpl, fd, hfd, by rw [hpl, hn]⟩)
    by_cases hpt : p = target
    · subst hpt
      obtain hn | hn := hp.cold
      · exact .inl (hn.trans hg.regular.symm)
      · exact .inr (.inl ⟨hn, harch⟩)
    · exact .inl (hp.frame.node p fun h => h.elim hpp fun h => h.elim hpl hpt)

/-- A restore that has changed its temporary only has left what was there. -/
theorem Granted.Idle.intact (hg : Granted env h₀ link target i₀) {h : Host}
    (hi : Granted.Idle env h₀ link i₀ h) : Intact h₀.fs h.fs := by
  refine ⟨fun p n hn => ?_, fun i hi' => hi.frame.inode i hi' fun hF => hF⟩
  rw [hi.frame.node p fun hp => ?_, hn]
  rw [hp, hg.free] at hn
  exact absurd hn (by simp)

/-- A granted restore is confined, if its target is the archive location. -/
theorem Granted.confines (hg : Granted env h₀ link target i₀) (hpairs : pairs ≠ [])
    (hadm : Admitted h₀.fs link target scratch_roots cold_roots pairs)
    (harch : ArchivedAt h₀.fs link pairs target) :
    Confines sha256 env h₀ link scratch_roots cold_roots pairs keep_cold := by
  obtain ⟨hstates, hend⟩ :=
    (hg.restore_one_spec sha256 keep_cold hadm).of_start (.inl hg.idle_start) rfl
  refine ⟨fun h hh => hg.confined harch (underRoots_of_admitted hpairs hadm) (hstates h hh),
    fun hans => ?_⟩
  cases hr : outcomeOf (restore_one sha256 env link scratch_roots cold_roots pairs keep_cold)
      h₀ with
  | mk answer tr =>
    rw [hr] at hend hans
    cases answer with
    | error e => exact hend.1.intact hg
    | ok ok =>
      obtain ⟨-, hi, -⟩ | ⟨rfl, -⟩ := hend
      · exact hi.intact hg
      · exact absurd rfl hans

/-- So is one that the checks refuse, or that finds no file. -/
theorem confines_of_refused (hquiet : ∀ i h, env.before i h = h)
    (hroot : ∀ n, h₀.fs.node [] = some n → n.isDir = true)
    (hno : ∀ target st, Admitted h₀.fs link target scratch_roots cold_roots pairs →
      h₀.fs.stat target = .ok st → st.node.isFile = false) :
    Confines sha256 env h₀ link scratch_roots cold_roots pairs keep_cold := by
  have hstates := ((restore_one_refused sha256 keep_cold hquiet hroot hno).of_start rfl rfl).1
  refine ⟨fun h hh => ?_, fun _ => ?_⟩
  · rw [hstates h hh]
    exact confined_refl
  · have hnow := hstates _ (Trace.now_mem _)
    rw [hnow]
    exact intact_refl _

/-- A granted restore in which nothing fails removes its target. -/
theorem Granted.removes (sha256 : Bytes → String) (hg : Granted env h₀ link target i₀)
    (hsmooth : Smooth env h₀ i₀)
    (hadm : Admitted h₀.fs link target scratch_roots cold_roots pairs) :
    (outcomeOf (restore_one sha256 env link scratch_roots cold_roots pairs false)
      h₀).2.now.fs.node target = none := by
  have hend := ((hg.restore_one_spec sha256 false hadm).of_start (.inl hg.idle_start) rfl).2
  cases hr : outcomeOf (restore_one sha256 env link scratch_roots cold_roots pairs false) h₀ with
  | mk answer tr =>
    rw [hr] at hend
    cases answer with
    | error e => exact absurd hsmooth hend.2
    | ok ok =>
      obtain ⟨-, -, hs⟩ | ⟨-, -, hgone⟩ := hend
      · exact absurd hsmooth hs
      · exact hgone rfl hsmooth

/-- Every restore of a link is confined, whatever fails in it, exactly when its archive location
passes no link below the cold root, if the checks let the link through to a file. -/
theorem restore_confined_iff {urandom : String} (hpairs : pairs ≠ [])
    (hreal : ∀ pair ∈ pairs, h₀.fs.LinkFree pair.2)
    (hroot : ∀ n, h₀.fs.node [] = some n → n.isDir = true) (hcanon : Canonical h₀.fs link)
    (hfree : h₀.fs.node (partPlace h₀.fs urandom link) = none) :
    (∀ (env : RestoreEnv) (keep_cold : Bool), Alone env → env.urandom = urandom →
      Confines sha256 env h₀ link scratch_roots cold_roots pairs keep_cold) ↔
    Straight h₀.fs link scratch_roots cold_roots pairs := by
  have hrooted : Rooted h₀.fs := fun t ht => absurd (hroot _ ht) (by simp [Node.isDir])
  constructor
  · -- where nothing fails the target is removed, so it is the archive location
    intro hconf target st hadm hstat hfile pair hpair
    let env : RestoreEnv := { cp := ⟨st.size + 1, fun _ _ => 1⟩, urandom := urandom }
    have halone : Alone env := ⟨fun _ _ => rfl, fun e he => absurd he (by simp [env])⟩
    obtain ⟨i₀, hg⟩ := granted_of_admitted halone.quiet halone.atomic hroot hcanon hfree hadm hstat
      hfile
    obtain ⟨st', hstat', -, hid⟩ :=
      hg.stat_target (FS.SameBut.refl (P := fun _ => False) _) hg.regular
    obtain rfl := Except.ok.inj (hstat.symm.trans hstat')
    have hsize : st.size = (h₀.fs.inode i₀).data.length := congrArg (·.2.1) hid
    have hgone := hg.removes sha256 ⟨fun _ => rfl, rfl, by simp [env, hsize]⟩ hadm
    obtain hsame | ⟨-, pair', hpair', rfl, hno⟩ | ⟨-, -, -, fd, -, hn⟩ :=
      ((hconf env false halone rfl).1 _ (Trace.now_mem _)).names target
    · rw [hgone, hg.regular] at hsame
      exact absurd hsame (by simp)
    · obtain rfl := Option.some_inj.mp (hpair.symm.trans hpair')
      exact hno
    · rw [hgone] at hn
      exact absurd hn (by simp)
  · rintro hstraight env keep_cold halone rfl
    by_cases hno : ∀ target st, Admitted h₀.fs link target scratch_roots cold_roots pairs →
        h₀.fs.stat target = .ok st → st.node.isFile = false
    · exact confines_of_refused halone.quiet hroot hno
    · push Not at hno
      obtain ⟨target, st, hadm, hstat, hfile⟩ := hno
      rw [Bool.ne_false_iff] at hfile
      obtain ⟨i₀, hg⟩ := granted_of_admitted halone.quiet halone.atomic hroot hcanon hfree hadm hstat
        hfile
      exact hg.confines hpairs hadm (archivedAt_target hg hpairs hreal hrooted hadm
        (hstraight target st hadm hstat hfile))

end Archive

/-! ### Two restores -/

/-- Every call succeeds. -/
def restoreEnv : RestoreEnv := { cp := ⟨4, fun _ _ => 1⟩, urandom := "0f" }

theorem restoreEnv_alone : Alone restoreEnv :=
  ⟨fun _ _ => rfl, fun e he => absurd he (by simp [restoreEnv])⟩

theorem straight_linked : Straight linkedTiers ["cold", "..", "scratch", "a"] [["scratch"]]
    [["cold"]] [(["scratch"], ["cold"])] := by
  intro target st _ _ _ pair hpair
  have hcold : pairOf (linkedTiers.realpath (dirname ["cold", "..", "scratch", "a"]))
      [(["scratch"], ["cold"])] = some (["scratch"], ["cold"]) := by decide +kernel
  obtain rfl := Option.some_inj.mp (hcold.symm.trans hpair)
  have hpath : archivePath linkedTiers ["cold", "..", "scratch", "a"] (["scratch"], ["cold"]) =
      ["cold"] ++ ["a"] := by decide +kernel
  rw [hpath]
  rintro q t ⟨r, rfl⟩ hne hq ht
  rw [List.prefix_append_right_inj] at hq
  obtain rfl | hnil := List.prefix_concat_iff.mp (show r <+: [] ++ ["a"] from hq)
  · have hfile : linkedTiers.node (["cold"] ++ ([] ++ ["a"])) = some (.file 0) := by decide +kernel
    exact absurd (hfile.symm.trans ht) (by simp)
  · exact hne (by rw [List.prefix_nil.mp hnil, List.append_nil])

/-- The link of an archived file is restored, and nothing else is touched. -/
theorem restore_confined_linked :
    (outcomeOf (restore_one (fun _ => "") restoreEnv ["cold", "..", "scratch", "a"] [["scratch"]]
        [["cold"]] [(["scratch"], ["cold"])] false) { fs := linkedTiers }).1.toOption = some true ∧
      Confines (fun _ => "") restoreEnv { fs := linkedTiers } ["cold", "..", "scratch", "a"]
        [["scratch"]] [["cold"]] [(["scratch"], ["cold"])] false := by
  refine ⟨by decide +kernel, (restore_confined_iff (by simp) ?_ ?_
    (canonical_linked (Within.refl (P := fun _ => False) { fs := linkedTiers })) ?_).mpr
      straight_linked restoreEnv false restoreEnv_alone rfl⟩
  · intro pair hpair
    rw [List.mem_singleton.mp hpair]
    exact (FS.realDir_nil.concat (by decide) (by decide +kernel)).linkFree
  · intro n hn
    have hnone : linkedTiers.node [] = none := by decide +kernel
    exact absurd (hnone.symm.trans hn) (by simp)
  · decide +kernel

/-- `scratch/u/d/a` is a link to `cold/u/d/a`, and the owner of `cold/u` has made `cold/u/d` a
link to the directory of somebody else. -/
def plantedTiers : FS :=
  (((((((emptyTiers.newInode ⟨[1, 2, 3], ⟨1001, 100, 0o600#12⟩, 0, 0, 0⟩).setNode ["cold", "v"]
    (.dir ⟨1001, 100, 0o700#12⟩) (by decide)).setNode ["cold", "v", "a"] (.file 0)
    (by decide)).setNode ["cold", "u"] (.dir ⟨1000, 100, 0o700#12⟩) (by decide)).setNode
    ["cold", "u", "d"] (.link ⟨true, ["cold", "v"]⟩) (by decide)).setNode ["scratch", "u"]
    (.dir ⟨1000, 100, 0o700#12⟩) (by decide)).setNode ["scratch", "u", "d"]
    (.dir ⟨1000, 100, 0o700#12⟩) (by decide)).setNode ["scratch", "u", "d", "a"]
    (.link ⟨true, ["cold", "u", "d", "a"]⟩) (by decide)

/-- The file of the other user is restored to the link, and removed. -/
theorem planted_link_followed :
    ¬ Confines (fun _ => "") restoreEnv { fs := plantedTiers } ["scratch", "u", "d", "a"]
      [["scratch"]] [["cold"]] [(["scratch"], ["cold"])] false := by
  intro hconf
  have hthere : plantedTiers.node ["cold", "v", "a"] = some (.file 0) := by decide +kernel
  have hgone : (outcomeOf (restore_one (fun _ => "") restoreEnv ["scratch", "u", "d", "a"]
      [["scratch"]] [["cold"]] [(["scratch"], ["cold"])] false)
      { fs := plantedTiers }).2.now.fs.node ["cold", "v", "a"] = none := by decide +kernel
  -- a file that is gone must have been at the archive location, which is `cold/u/d/a`
  obtain hsame | ⟨-, pair, hpair, hpath, -⟩ | ⟨-, -, -, fd, -, hn⟩ :=
    (hconf.1 _ (Trace.now_mem _)).names ["cold", "v", "a"]
  · rw [hgone] at hsame
    exact absurd (hsame.trans hthere) (by simp)
  · have hcold : pairOf (plantedTiers.realpath (dirname ["scratch", "u", "d", "a"]))
        [(["scratch"], ["cold"])] = some (["scratch"], ["cold"]) := by decide +kernel
    obtain rfl := Option.some_inj.mp (hcold.symm.trans hpair)
    exact absurd hpath (by decide +kernel)
  · rw [hgone] at hn
    exact absurd hn (by simp)

end Scratch
