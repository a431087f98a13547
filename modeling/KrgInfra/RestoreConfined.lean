/-
Where a scratch-restore writes, whatever its links lead to.

The link to restore is any path: links may lie on the way to it, its name may be any,
and any call may fail.  With nobody else at work, `restore_one` changes nothing but the
temporary and the link in the one directory that the link's path leads to, and the cold
file that the checks let through; so a whole run stays within its scratch roots and its
cold roots.

* `Within` — only some places have changed, and no name has become a link or a directory;
* `Admitted` — what the checks have seen of a link that is restored;
* `restore_one_rule`, `restore_one_confined` — the places of one restore;
* `scratch_restore` — the program, over the paths that it is given;
* `scratch_restore_confined` — the places of a run.
-/
import KrgInfra.RestoreSafety
import KrgInfra.Lookup
import Mathlib.Data.List.Dedup

namespace Scratch

open Posix

/-- From `h₀` to `h` only the places in `P` have changed: what was there may be gone or
have become a file, and no file that was there has other content. -/
structure Within (h₀ : Host) (P : Path → Prop) (h : Host) : Prop where
  same : FS.SameBut P (fun _ => False) h₀.fs h.fs
  settled : h₀.fs.Settled h.fs

namespace Within

variable {h₀ h h' : Host} {P P' : Path → Prop}

theorem refl (h₀ : Host) : Within h₀ P h₀ := ⟨FS.SameBut.refl _, FS.Settled.refl _⟩

theorem mono (hw : Within h₀ P h) (hP : ∀ p, P p → P' p) : Within h₀ P' h :=
  ⟨hw.same.mono hP fun _ _ hF => hF, hw.settled⟩

theorem trans (hw : Within h₀ P h) (hw' : Within h P h') : Within h₀ P h' :=
  ⟨hw.same.trans hw'.same, hw.settled.trans hw'.settled⟩

/-- A change at places that are the same ones as at the start. -/
theorem change {fs' : FS} {L : Path → Prop} (hw : Within h₀ P h)
    (hsame : FS.SameBut L (fun _ => False) h.fs fs') (hset : h.fs.Settled fs')
    (hL : ∀ p, L p → P p) : Within h₀ P { h with fs := fs' } :=
  ⟨hw.same.extend hsame hL fun _ _ hF => hF.elim, hw.settled.trans hset⟩

theorem setInode {fd : ℕ} {f : Inode} (hw : Within h₀ P h) (hfd : h₀.fs.nextIno ≤ fd) :
    Within h₀ P { h with fs := h.fs.setInode fd f } := by
  refine ⟨hw.same.extend (FS.sameBut_setInode fd f) (fun _ hp => hp.elim) ?_,
    hw.settled.trans (FS.settled_setInode fd f)⟩
  rintro i hi rfl
  exact absurd hfd (Nat.not_le.mpr hi)

end Within

/-! ### The calls of a restore -/

section Step

variable {sha256 : Bytes → String} {env : RestoreEnv} {I : Host → Prop} {h₀ : Host}
  {P : Path → Prop} {link target part : Path}

/-- The name at `part` is a regular file, if there is one. -/
def Ready (part : Path) (h : Host) : Prop :=
  ∀ q n, h.fs.locate part = .ok q → h.fs.node q = some n → ∃ i, n = .file i

variable (hquiet : ∀ i h, env.before i h = h)

include hquiet

omit h₀ P in
theorem undisturbed {A : Host → Prop} {i : RestoreSite} (h : Host) (hI : I h) (hA : A h) :
    I (env.toEnv.before i h) ∧ A (env.toEnv.before i h) := by
  have hb : env.toEnv.before i h = h := hquiet i h
  rw [hb]
  exact ⟨hI, hA⟩

omit h₀ P in
/-- A call that only looks. -/
theorem looks {α : Type} {i : RestoreSite} {f : FS → Except OSError α} {A : Host → Prop} :
    Triple I A (rsys env i (ask f)) (fun a h => A h ∧ f h.fs = .ok a) (fun _ => A) :=
  (Triple.of_ask (undisturbed hquiet)).except fun _ _ _ h => h.1

omit h₀ P in
theorem rests {i : RestoreSite} {A : Host → Prop} :
    Triple I A (rsys env i (changeFd id)) (fun _ => A) (fun _ => A) := by
  refine Triple.of_call A (undisturbed hquiet) (fun h hI hA => ⟨hI, hA⟩) ?_
  rintro e (_ | _) h - - hA
  · exact hA
  · exact hA

variable (hI : ∀ h, Within h₀ P h → I h)

include hI

/-- A call through the descriptor of a file that was not there at the start. -/
theorem writes {i : RestoreSite} {fd : ℕ} {g : FS → FS} {f : FS → Inode}
    (hg : ∀ fs, g fs = fs.setInode fd (f fs)) (hfd : h₀.fs.nextIno ≤ fd) :
    Triple I (Within h₀ P) (rsys env i (changeFd g)) (fun _ => Within h₀ P)
      (fun _ => Within h₀ P) := by
  refine Triple.of_change (undisturbed hquiet) ?_ (fun _ hw _ => hw) fun _ hw => hw
  intro h fs' hw hfs
  have hw' : Within h₀ P { h with fs := fs' } := by
    rw [← Except.ok.inj hfs, hg]
    exact hw.setInode hfd
  exact ⟨hw', hI _ hw'⟩

/-- Removing a name that was looked up. -/
theorem unlinks {i : RestoreSite} {p : Path} (hp : ∀ q, h₀.fs.locate p = .ok q → P q) :
    Triple I (Within h₀ P) (rsys env i (change (·.unlink p))) (fun _ => Within h₀ P)
      (fun _ => Within h₀ P) := by
  refine Triple.of_change (undisturbed hquiet) ?_ (fun _ hw _ => hw) fun _ hw => hw
  intro h fs' hw hu
  have hsame := FS.sameBut_unlink hu
  obtain ⟨q, hdir, -, rfl⟩ := FS.unlink_ok hu
  have hw' := hw.change hsame (FS.settled_clearNode hdir) fun q hq => hp q (hw.settled.locate hq)
  exact ⟨hw', hI _ hw'⟩

theorem unlinksIfThere {i j : RestoreSite} {p : Path} (hp : ∀ q, h₀.fs.locate p = .ok q → P q) :
    Triple I (Within h₀ P) (unlinkIfThere env.toEnv i j p) (fun _ => Within h₀ P)
      (fun _ => Within h₀ P) := by
  refine Triple.bind (Q := fun _ => Within h₀ P) (Triple.map (Q := fun _ => Within h₀ P)
    (Triple.attempt ((looks hquiet).conseq (fun _ _ h => h) (fun _ _ _ h => h.1) fun _ _ _ h => h))
    fun _ _ _ h => h) fun there => ?_
  cases there with
  | false => exact Triple.pure fun _ _ h => h
  | true => exact unlinks hquiet hI hp

/-- The copy writes a new file, and makes no name but its own. -/
theorem copies (hpart : ∀ q, h₀.fs.locate part = .ok q → P q) :
    Triple I (Within h₀ P) (copy_and_hash sha256 env.toEnv .copy env.cp target part)
      (fun x h => h₀.fs.nextIno ≤ x.2.2 ∧ Within h₀ P h) (fun _ => Within h₀ P) := by
  have hnew : ∀ h fd fs', Within h₀ P h → h.fs.createExcl part 0o600#12 = .ok (fd, fs') →
      h₀.fs.nextIno ≤ fd ∧ Within h₀ P { h with fs := fs' } := by
    intro h fd fs' hw hc
    obtain ⟨rfl, -⟩ := FS.createExcl_ok hc
    exact ⟨hw.same.nextIno, hw.change (FS.sameBut_createExcl hc) (FS.settled_createExcl hc)
      fun q hq => hpart q (hw.settled.locate hq)⟩
  refine (copy_and_hash_rule (O := fun _ => Within h₀ P)
    (H := fun _ fd _ _ h => h₀.fs.nextIno ≤ fd ∧ Within h₀ P h) ?_ ?_ ?_ ?_ ?_).conseq
      (fun _ _ h => h) ?_ fun _ _ _ h => h
  · exact (looks hquiet).conseq (fun _ _ h => h) (fun _ _ _ h => h.1) fun _ _ _ h => h
  · intro src_fd
    refine Triple.of_call (Within h₀ P) (undisturbed hquiet) ?_ ?_
    · intro h hIh hw
      cases hc : h.fs.createExcl part 0o600#12 with
      | error e =>
        simp only [Work.update, hc, Except.map]
        exact ⟨hIh, hw⟩
      | ok x =>
        simp only [Work.update, hc, Except.map]
        obtain ⟨hfd, hw'⟩ := hnew h x.1 x.2 hw hc
        exact ⟨hI _ hw', hfd, hw'⟩
    · rintro e (_ | _) h - - hw
      · exact hw
      · cases hc : h.fs.createExcl part 0o600#12 with
        | error e =>
          simp only [Work.update, hc, Except.map]
          exact hw
        | ok x =>
          simp only [Work.update, hc, Except.map]
          exact (hnew h x.1 x.2 hw hc).2
  · exact fun src_fd fd k acc => (looks hquiet).conseq (fun _ _ h => h) (fun _ _ _ h => h.1)
      fun _ _ _ h => h.2
  · intro src_fd fd data acc bs k j _
    refine Triple.of_fact fun hfd => ?_
    exact (writes hquiet hI (fun _ => rfl) hfd).conseq (fun _ _ h => h) (fun _ _ _ h => ⟨hfd, h⟩)
      fun _ _ _ h => h
  · exact fun src_fd fd read i => (rests hquiet).except fun _ _ _ h => h.2
  · rintro x h - ⟨src_fd, read, -, -, hfd, hw⟩
    exact ⟨hfd, hw⟩

/-! ### The `try` block -/

theorem copy_matches_within {tst : FS.Stat} {src_sha : String} {n fd : ℕ}
    (hfd : h₀.fs.nextIno ≤ fd) :
    Triple I (Within h₀ P) (copy_matches sha256 env tst src_sha n fd) (fun _ => Within h₀ P)
      (fun _ => Within h₀ P) := by
  rw [copy_matches]
  split_ifs
  · exact Triple.pure fun _ _ h => h
  · refine Triple.bind (Q := fun _ => Within h₀ P) ?_ fun _ => Triple.pure fun _ _ h => h
    have hread : ∀ h, Within h₀ P h → Within h₀ P (Restoration.rereadHost env fd h) := by
      intro h hw
      unfold Restoration.rereadHost
      cases hst : env.stored with
      | none => exact hw
      | some b => exact hw.setInode hfd
    rw [reread_sha256, rsys]
    refine Triple.of_call (Within h₀ P) (undisturbed hquiet) ?_ ?_
    · exact fun h _ hw => ⟨hI _ (hread h hw), hread h hw⟩
    · rintro e (_ | _) h - - hw
      · exact hw
      · exact hread h hw

theorem restore_meta_within {tst : FS.Stat} {fd : ℕ} (hfd : h₀.fs.nextIno ≤ fd) :
    Triple I (Within h₀ P) (restore_meta env tst fd) (fun _ => Within h₀ P)
      (fun _ => Within h₀ P) := by
  refine Triple.bind (writes hquiet hI (fun _ => rfl) hfd) fun _ => ?_
  refine Triple.bind (writes hquiet hI (fun _ => rfl) hfd) fun _ => ?_
  refine Triple.bind (Q := fun _ => Within h₀ P) ?_ fun _ => rests hquiet
  rw [restore_owner]
  split_ifs
  · exact writes hquiet hI (fun _ => rfl) hfd
  · exact Triple.pure fun _ _ h => h

omit hquiet hI in
/-- A name with the inode of our descriptor is a regular file. -/
theorem ready_of_lstat {h : Host} {lp : FS.Stat} {fd : ℕ} (hlp : h.fs.lstat part = .ok lp)
    (hino : lp.ino = some fd) : Ready part h := by
  intro q n hq hn
  rw [FS.lstat, hq] at hlp
  have hst : h.fs.statAt q = .ok lp := hlp
  rw [FS.statAt, hn] at hst
  cases n with
  | file i => exact ⟨i, rfl⟩
  | dir m =>
    rw [← Except.ok.inj hst] at hino
    exact absurd hino (by simp)
  | link t =>
    rw [← Except.ok.inj hst] at hino
    exact absurd hino (by simp)

theorem restore_verify_within {tst : FS.Stat} {src_sha : String} {n fd : ℕ}
    (hpart : ∀ q, h₀.fs.locate part = .ok q → P q) (hfd : h₀.fs.nextIno ≤ fd) :
    Triple I (Within h₀ P) (restore_verify sha256 env tst target part src_sha n fd)
      (fun ok h => Within h₀ P h ∧ (ok = true → Ready part h)) (fun _ => Within h₀ P) := by
  have hgiveUp : ∀ i, Triple I (Within h₀ P)
      (do rsys env i (change (·.unlink part)); return false)
      (fun ok h => Within h₀ P h ∧ (ok = true → Ready part h)) (fun _ => Within h₀ P) := by
    intro i
    refine Triple.bind (unlinks hquiet hI hpart) fun _ => Triple.pure fun _ _ h => ⟨h, ?_⟩
    exact fun hc => absurd hc (by simp)
  refine Triple.bind (copy_matches_within hquiet hI hfd) fun same => ?_
  cases same with
  | false => exact hgiveUp _
  | true =>
    refine Triple.bind (restore_meta_within hquiet hI hfd) fun _ => ?_
    refine Triple.bind (Q := fun _ => Within h₀ P) (Triple.attempt ((looks hquiet).conseq
      (fun _ _ h => h) (fun _ _ _ h => h.1) fun _ _ _ h => h)) fun tcur => ?_
    show Triple _ _ (if _ then _ else _) _ _
    split_ifs
    · exact hgiveUp _
    refine Triple.bind (looks hquiet) fun lp => ?_
    refine Triple.bind ((looks hquiet).except fun _ _ _ h => h.1) fun fst => ?_
    show Triple _ _ (if _ then _ else _) _ _
    split_ifs with hswapped
    · exact Triple.throw fun _ _ h => h.1.1
    · refine Triple.pure ?_
      rintro h - ⟨⟨hw, hlp⟩, hfst⟩
      refine ⟨hw, fun _ => @ready_of_lstat part h lp fd hlp ?_⟩
      rw [not_not.mp (not_or.mp hswapped).2, ← Except.ok.inj hfst]
      rfl

/-- The `try` block, from which no name but the temporary's and the link's changes. -/
theorem restore_copy_within {tst : FS.Stat} (hpart : ∀ q, h₀.fs.locate part = .ok q → P q)
    (hlink : ∀ q, h₀.fs.locate link = .ok q → P q) :
    Triple I (Within h₀ P) (restore_copy sha256 env tst link target part) (fun _ => Within h₀ P)
      (fun _ => Within h₀ P) := by
  refine Triple.bind (unlinksIfThere hquiet hI hpart) fun _ => ?_
  refine Triple.bind (copies hquiet hI hpart) ?_
  rintro ⟨sha, n, fd⟩
  refine Triple.of_fact fun hfd => ?_
  refine Triple.bind (Triple.withFinally (restore_verify_within hquiet hI hpart hfd)
    (fun ok => (rests hquiet).except fun _ _ _ h => h.1) fun _ => rests hquiet) fun verified => ?_
  cases verified with
  | false => exact Triple.pure fun _ _ h => h.1
  | true =>
    refine Triple.bind (Q := fun _ => Within h₀ P) ?_ fun _ => Triple.pure fun _ _ h => h
    refine Triple.of_change (undisturbed hquiet) ?_ (fun _ hw _ => hw.1) fun _ hw => hw
    rintro h fs' ⟨hw, hready⟩ hrep
    have hw' := hw.change (FS.sameBut_replace hrep) (FS.settled_replace hrep (hready rfl)) <| by
      rintro q (hq | hq)
      · exact hpart q (hw.settled.locate hq)
      · exact hlink q (hw.settled.locate hq)
    exact ⟨hw', hI _ hw'⟩

/-- Removing the cold copy removes the name that was restored from, if it is the name of
no link on the way. -/
theorem drop_cold_within {tst : FS.Stat} (htarget : h₀.fs.LinkFree target) (hP : P target)
    {E : OSError → Host → Prop} :
    Triple I (Within h₀ P) (drop_cold env tst target) (fun _ => Within h₀ P) E := by
  refine Triple.bind (Q := fun _ => Within h₀ P) (Triple.attempt ((looks hquiet).conseq
    (fun _ _ h => h) (fun _ _ _ h => h.1) fun _ _ _ h => h)) fun tst2 => ?_
  show Triple _ _ (if _ then _ else _) _ _
  split_ifs
  · refine Triple.attempt (unlinks hquiet hI fun q hq => ?_)
    rwa [htarget.locate hq]
  · exact Triple.pure fun _ _ h => h

end Step

/-! ### One restore -/

/-- The place of the temporary of a restore. -/
def partPlace (fs : FS) (urandom : String) (link : Path) : Path :=
  fs.realpath (dirname link) ++ [tmpName "sr" urandom]

/-- The place of a link. -/
def linkPlace (fs : FS) (link : Path) : Path := fs.realpath (dirname link) ++ [basename link]

/-- What the checks have seen of a link that they let through. -/
structure Admitted (fs : FS) (link target : Path) (scratch_roots cold_roots : List Path)
    (pairs : List (Path × Path)) : Prop where
  isLink : ∃ t, fs.readlink link = .ok t ∧ fs.node (linkPlace fs link) = some (.link t) ∧
    target = fs.realpath (absolute link t)
  scratch : scratch_roots = [] ∨ under_any (fs.realpath (dirname link)) scratch_roots = true
  cold : under_any target cold_roots = true
  pair : pairs = [] ∨ expectedTarget fs link (fs.realpath (dirname link)) pairs = some target

/-- The real path of what the link points to has no link on it, if a file is found there. -/
def Canonical (fs : FS) (link : Path) : Prop :=
  ∀ t st, fs.readlink link = .ok t → fs.stat (fs.realpath (absolute link t)) = .ok st →
    fs.LinkFree (fs.realpath (absolute link t))

/-- The root of the file system is no link. -/
def Rooted (fs : FS) : Prop := ∀ t, fs.node [] ≠ some (.link t)

theorem Within.rooted {h₀ h : Host} {P : Path → Prop} (hw : Within h₀ P h) (hr : Rooted h₀.fs) :
    Rooted h.fs := fun t ht => hr t (hw.settled.link ht)

/-- A link that was read lies in the directory of its path, under its own name. -/
theorem place_of_readlink {fs : FS} {link : Path} {t : Target} (hroot : Rooted fs)
    (h : fs.readlink link = .ok t) : link = dirname link ++ [basename link] ∧
      Plain (basename link) ∧ fs.node (linkPlace fs link) = some (.link t) := by
  obtain ⟨q, hq, hn⟩ := FS.readlink_ok h
  obtain ⟨d, n, rfl, hplain⟩ := FS.plain_of_locate_link hroot hq hn
  have hdir : dirname (d ++ [n]) = d := List.dropLast_concat
  have hbase : basename (d ++ [n]) = n := by simp [basename]
  refine ⟨by rw [hdir, hbase], by rwa [hbase], ?_⟩
  rw [linkPlace, hdir, hbase, ← (FS.locate_concat hplain hq).2]
  exact hn

section One

variable {sha256 : Bytes → String} {env : RestoreEnv} {I : Host → Prop} {h₀ : Host}
  {link target : Path} {scratch_roots cold_roots : List Path} {pairs : List (Path × Path)}
  {keep_cold : Bool}

/-- The places of a restore that does not succeed. -/
def HotPlaces (env : RestoreEnv) (link : Path) (fs : FS) (p : Path) : Prop :=
  p = partPlace fs env.urandom link ∨ p = linkPlace fs link

/-- The places of a restore from `target`. -/
def Places (env : RestoreEnv) (link target : Path) (keep_cold : Bool) (fs : FS) (p : Path) : Prop :=
  HotPlaces env link fs p ∨ keep_cold = false ∧ p = target

/-- What a host may be while a link is restored. -/
def Restoring (env : RestoreEnv) (link : Path) (scratch_roots cold_roots : List Path)
    (pairs : List (Path × Path)) (keep_cold : Bool) (h₀ h : Host) : Prop :=
  h = h₀ ∨ ∃ target, Admitted h₀.fs link target scratch_roots cold_roots pairs ∧
    Within h₀ (Places env link target keep_cold h₀.fs) h

variable (hquiet : ∀ i h, env.before i h = h)

include hquiet

/-- The checks change nothing, and let through only what they have seen. -/
theorem archive_target_rule (hroot : Rooted h₀.fs) :
    Triple I (· = h₀) (archive_target env link scratch_roots cold_roots pairs)
      (fun o h => (∀ target, o = some target →
        Admitted h₀.fs link target scratch_roots cold_roots pairs) ∧ h = h₀) (fun _ h => h = h₀) := by
  have hnone : Triple I (· = h₀) (pure none : Program OSError Host (Option Path)) (fun o h => (∀ target, o = some target →
      Admitted h₀.fs link target scratch_roots cold_roots pairs) ∧ h = h₀) (fun _ h => h = h₀) :=
    Triple.pure fun _ _ h => ⟨fun p hc => absurd hc (by simp), h⟩
  refine Triple.bind (Q := fun _ h => h = h₀) ?_ fun is_link => ?_
  · refine Triple.bind (Q := fun _ h => h = h₀) (Triple.attempt ((looks hquiet).conseq
      (fun _ _ h => h) (fun _ _ _ h => h.1) fun _ _ _ h => h)) fun st => Triple.pure fun _ _ h => h
  cases is_link with
  | false => exact hnone
  | true =>
    refine Triple.bind (Q := fun link_parent h => link_parent = h₀.fs.realpath (dirname link) ∧
      h = h₀) ?_ fun link_parent => Triple.of_fact ?_
    · rintro tr hI hP
      exact ⟨hI, by rw [hP], hP⟩
    rintro rfl
    show Triple _ _ (if _ then _ else _) _ _
    by_cases hout : scratch_roots ≠ [] ∧
        under_any (h₀.fs.realpath (dirname link)) scratch_roots = false
    · rw [if_pos hout]
      exact hnone
    rw [if_neg hout]
    refine Triple.bind (Q := fun t h => h₀.fs.readlink link = .ok t ∧ h = h₀)
      ((looks hquiet).conseq (fun _ _ h => h) ?_ fun _ _ _ h => h) fun t => Triple.of_fact fun ht => ?_
    · rintro t h - ⟨rfl, hr⟩
      exact ⟨hr, rfl⟩
    refine Triple.bind (Q := fun target h => target = h₀.fs.realpath (absolute link t) ∧
      h = h₀) ?_ fun target => Triple.of_fact ?_
    · rintro tr hI hP
      exact ⟨hI, by rw [hP], hP⟩
    rintro rfl
    refine Triple.bind (Q := fun ok h => ok = contained h₀.fs link (h₀.fs.realpath (dirname link))
      (h₀.fs.realpath (absolute link t)) cold_roots pairs ∧ h = h₀) ?_ fun ok => Triple.of_fact ?_
    · rintro tr hI hP
      exact ⟨hI, by rw [hP], hP⟩
    intro hok
    refine Triple.pure ?_
    rintro h - rfl
    refine ⟨fun target htarget => ?_, rfl⟩
    cases ok with
    | false => exact absurd htarget (by simp)
    | true =>
      obtain rfl := Option.some_inj.mp htarget
      have hc := hok.symm
      rw [contained, Bool.and_eq_true, Bool.or_eq_true, beq_iff_eq, List.isEmpty_iff] at hc
      refine ⟨⟨t, ht, (place_of_readlink hroot ht).2.2, rfl⟩, ?_, hc.1, hc.2⟩
      rw [not_and_or, not_not, Bool.not_eq_false] at hout
      exact hout

omit hquiet in
/-- The places of a restore, for the names that its calls look up. -/
theorem hot_of_locate (hroot : Rooted h₀.fs) {t : Target} (ht : h₀.fs.readlink link = .ok t)
    {q : Path} (hq : h₀.fs.locate (tmp_sibling link "sr" env.urandom) = .ok q ∨
      h₀.fs.locate link = .ok q) : HotPlaces env link h₀.fs q := by
  obtain hq | hq := hq
  · exact .inl (FS.locate_concat (tmpName_plain _ _) hq).2
  · obtain ⟨hlink, hplain, -⟩ := place_of_readlink hroot ht
    rw [hlink] at hq
    exact .inr (FS.locate_concat hplain hq).2

variable (hI : ∀ h, Within h₀ (Places env link target keep_cold h₀.fs) h → I h)

include hI

/-- From an admitted target on. -/
theorem restore_target_rule (hroot : Rooted h₀.fs) {t : Target}
    (ht : h₀.fs.readlink link = .ok t)
    (hcanon : ∀ st, h₀.fs.stat target = .ok st → h₀.fs.LinkFree target)
    {E : OSError → Host → Prop} :
    Triple I (· = h₀) (restore_target sha256 env link target keep_cold)
      (fun ok h => Within h₀ (Places env link target keep_cold h₀.fs) h ∧
        (ok = false → Within h₀ (HotPlaces env link h₀.fs) h)) E := by
  have hmono : ∀ h, Within h₀ (HotPlaces env link h₀.fs) h →
      Within h₀ (Places env link target keep_cold h₀.fs) h := fun h hw => hw.mono fun _ => .inl
  have hhot : ∀ h, Within h₀ (HotPlaces env link h₀.fs) h → I h := fun h hw => hI h (hmono h hw)
  have hpart : ∀ q, h₀.fs.locate (tmp_sibling link "sr" env.urandom) = .ok q →
      HotPlaces env link h₀.fs q := fun q hq => hot_of_locate hroot ht (.inl hq)
  have hlink : ∀ q, h₀.fs.locate link = .ok q → HotPlaces env link h₀.fs q :=
    fun q hq => hot_of_locate hroot ht (.inr hq)
  refine Triple.bind (Q := fun tst h => (∀ st, tst = some st → h₀.fs.LinkFree target) ∧ h = h₀)
    (Triple.attempt ((looks hquiet).conseq (fun _ _ h => h) ?_ ?_)) fun tst => Triple.of_fact ?_
  · rintro st h - ⟨rfl, hst⟩
    exact ⟨fun _ _ => hcanon st hst, rfl⟩
  · rintro e h - rfl
    exact ⟨fun st hst => absurd hst (by simp), rfl⟩
  intro hfree
  cases tst with
  | none =>
    refine Triple.pure ?_
    rintro h - rfl
    exact ⟨Within.refl _, fun _ => Within.refl _⟩
  | some tst =>
    show Triple _ _ (if _ then _ else _) _ _
    by_cases hfile : tst.node.isFile = false
    · rw [if_pos hfile]
      refine Triple.pure ?_
      rintro h - rfl
      exact ⟨Within.refl _, fun _ => Within.refl _⟩
    rw [if_neg hfile]
    refine Triple.bind (Q := fun _ => Within h₀ (HotPlaces env link h₀.fs)) (Triple.tryCatch
      (E := fun _ => Within h₀ (HotPlaces env link h₀.fs)) ?_ fun e => ?_) fun restored => ?_
    · refine (restore_copy_within hquiet hhot hpart hlink).weaken ?_
      rintro h - rfl
      exact Within.refl _
    · exact Triple.bind (Triple.attempt (unlinksIfThere hquiet hhot hpart)) fun _ =>
        Triple.pure fun _ _ h => h
    cases restored with
    | false => exact Triple.pure fun _ _ hw => ⟨hmono _ hw, fun _ => hw⟩
    | true =>
      cases keep_cold with
      | true => exact Triple.pure fun _ _ hw => ⟨hmono _ hw, fun hc => absurd hc (by simp)⟩
      | false =>
        refine Triple.bind ((drop_cold_within hquiet hI (hfree tst rfl) (.inr ⟨rfl, rfl⟩)).weaken
          fun h _ hw => hmono h hw) fun _ => Triple.pure fun _ _ hw => ⟨hw, ?_⟩
        exact fun hc => absurd hc (by simp)

omit hI in
/-- One restore changes its places only, and its target only if it succeeds. -/
theorem restore_one_rule
    (hI : ∀ h, Restoring env link scratch_roots cold_roots pairs keep_cold h₀ h → I h)
    (hroot : Rooted h₀.fs) (hcanon : Canonical h₀.fs link) :
    Triple I (· = h₀) (restore_one sha256 env link scratch_roots cold_roots pairs keep_cold)
      (fun ok h => Restoring env link scratch_roots cold_roots pairs keep_cold h₀ h ∧
        (ok = false → Within h₀ (HotPlaces env link h₀.fs) h))
      (fun _ h => h = h₀) := by
  refine Triple.bind (archive_target_rule hquiet hroot) fun target => Triple.of_fact fun ht => ?_
  cases target with
  | none =>
    refine Triple.pure ?_
    rintro h - rfl
    exact ⟨.inl rfl, fun _ => Within.refl _⟩
  | some target =>
    have hadm := ht target rfl
    obtain ⟨t, hread, -, htarget⟩ := hadm.isLink
    refine (restore_target_rule hquiet (fun h hw => hI h (.inr ⟨target, hadm, hw⟩)) hroot hread
      ?_).conseq (fun _ _ h => h) ?_ fun _ _ _ h => h
    · rw [htarget]
      exact fun st hst => hcanon t st hread hst
    · exact fun ok h _ hw => ⟨.inr ⟨target, hadm, hw.1⟩, hw.2⟩

end One

/-- The calls of `main` on the path number `k`. -/
inductive MainSite where
  | isdir (k : ℕ)
  | islink (k : ℕ)
  | stillLink (k : ℕ)
  deriving DecidableEq, Repr

/-- What scratch-restore is told: the paths, the flag, and the roots and the pairs of its other
flags and of its environment variables. -/
structure RestoreArgs where
  paths : List Path
  keep_cold : Bool
  cold_root : List Path
  scratch_root : List Path
  overflow_map : List (Path × Path)

/-- The environment of a run: of `main`'s own calls, of the restore number `j` under the path
number `k`, and the links that the walk of that path comes upon. -/
structure RunEnv where
  outcome : MainSite → Outcome OSError := fun _ => .ok
  before : MainSite → Host → Host := fun _ h => h
  walk_links : ℕ → List Path
  one : ℕ → ℕ → RestoreEnv

def RunEnv.toEnv (env : RunEnv) : Env MainSite OSError Host where
  before := env.before
  outcome := env.outcome

/-- The real paths of the roots that were given, each once; nothing reads their order. -/
def build (fs : FS) (vals : List Path) : List Path := (vals.map fs.realpath).dedup

section Program

variable (sha256 : Bytes → String) (env : RunEnv) (args : RestoreArgs)

/-- `os.path.isdir` and `os.path.islink`: an error of their calls reads as no. -/
def tests (i : MainSite) (look : FS → Except OSError FS.Stat) (good : Node → Bool) :
    Program OSError Host Bool := do
  let st ← attempt (call env.toEnv i (ask look))
  return (st.map fun st => good st.node).getD false

/-- Every link that the walk of a directory yields; the counts are of the links restored and
of those that were not. -/
def restore_links (scratch_roots cold_roots : List Path) (pairs : List (Path × Path)) (k : ℕ) :
    ℕ → List Path → ℕ × ℕ → Program OSError Host (ℕ × ℕ)
  | _, [], counts => pure counts
  | j, link :: links, counts => do
    let ok ← restore_one sha256 (env.one k j) link scratch_roots cold_roots pairs args.keep_cold
    restore_links scratch_roots cold_roots pairs k (j + 1) links
      (if ok then (counts.1 + 1, counts.2) else (counts.1, counts.2 + 1))

/-- A path that is no directory: it counts as a failure only if it is still a link. -/
def restore_single (scratch_roots cold_roots : List Path) (pairs : List (Path × Path)) (k : ℕ)
    (p : Path) (counts : ℕ × ℕ) : Program OSError Host (ℕ × ℕ) := do
  let ok ← restore_one sha256 (env.one k 0) p scratch_roots cold_roots pairs args.keep_cold
  if ok then return (counts.1 + 1, counts.2)
  else do
    let left ← tests env (.stillLink k) (·.lstat p) Node.isLink
    return if left then (counts.1, counts.2 + 1) else counts

/-- `os.path.isdir(p) and not os.path.islink(p)` -/
def walked (k : ℕ) (p : Path) : Program OSError Host Bool := do
  let isdir ← tests env (.isdir k) (·.stat p) Node.isDir
  if isdir then do
    let islink ← tests env (.islink k) (·.lstat p) Node.isLink
    return !islink
  else return false

/-- One of the paths: all the links under a directory, or a link. -/
def restore_path (scratch_roots cold_roots : List Path) (pairs : List (Path × Path)) (k : ℕ)
    (p : Path) (counts : ℕ × ℕ) : Program OSError Host (ℕ × ℕ) := do
  let walk ← walked env k p
  if walk then
    restore_links sha256 env args scratch_roots cold_roots pairs k 0 (env.walk_links k) counts
  else restore_single sha256 env args scratch_roots cold_roots pairs k p counts

/-- One path after the other. -/
def restore_paths (scratch_roots cold_roots : List Path) (pairs : List (Path × Path)) :
    ℕ → List Path → ℕ × ℕ → Program OSError Host (ℕ × ℕ)
  | _, [], counts => pure counts
  | k, p :: paths, counts => do
    let counts ← restore_path sha256 env args scratch_roots cold_roots pairs k p counts
    restore_paths scratch_roots cold_roots pairs (k + 1) paths counts

/-- `main`: the exit status. -/
def scratch_restore : Program OSError Host ℕ := do
  let cold_roots ← peek fun h => build h.fs args.cold_root
  if cold_roots = [] then return 2
  else do
    let scratch_roots ← peek fun h => build h.fs args.scratch_root
    let pairs ← peek fun h =>
      args.overflow_map.map fun pair => (h.fs.realpath pair.1, h.fs.realpath pair.2)
    let counts ← restore_paths sha256 env args scratch_roots cold_roots pairs 0 args.paths (0, 0)
    return if counts.2 = 0 then 0 else 1

end Program

/-! ### The places of a run -/

/-- In a directory of a scratch root, or under a cold root. -/
def Area (args : RestoreArgs) (fs : FS) (p : Path) : Prop :=
  under_any p.dropLast (build fs args.scratch_root) = true ∨
    under_any p (build fs args.cold_root) = true

/-- The links that a run comes upon. -/
def RunEnv.Meets (env : RunEnv) (args : RestoreArgs) (link : Path) : Prop :=
  link ∈ args.paths ∨ ∃ k, link ∈ env.walk_links k

section Run

variable {sha256 : Bytes → String} {env : RunEnv} {args : RestoreArgs} {h₀ : Host}

/-- The places of a restore whose link was checked against the roots of the run. -/
theorem area_of_places {oneEnv : RestoreEnv} {fs : FS} {link target : Path}
    {pairs : List (Path × Path)} (hscratch : args.scratch_root ≠ [])
    (ha : Admitted fs link target (build h₀.fs args.scratch_root) (build h₀.fs args.cold_root)
      pairs) {p : Path} (hp : Places oneEnv link target args.keep_cold fs p) :
    Area args h₀.fs p := by
  have hdir : under_any (fs.realpath (dirname link)) (build h₀.fs args.scratch_root) = true := by
    refine ha.scratch.resolve_left fun hnil => hscratch ?_
    rwa [build, List.dedup_eq_nil, List.map_eq_nil_iff] at hnil
  obtain (rfl | rfl) | ⟨-, rfl⟩ := hp
  · exact .inl (by rwa [partPlace, List.dropLast_concat])
  · exact .inl (by rwa [linkPlace, List.dropLast_concat])
  · exact .inr ha.cold

variable (hmain : ∀ i h, env.before i h = h) (hone : ∀ k j i h, (env.one k j).before i h = h)
  (hroot : Rooted h₀.fs) (hscratch : args.scratch_root ≠ [])
  (hcanon : ∀ h, Within h₀ (Area args h₀.fs) h → ∀ link, env.Meets args link →
    Canonical h.fs link)

include hone hroot hscratch hcanon

/-- One restore of a run. -/
theorem restore_one_area {k j : ℕ} {link : Path} {pairs : List (Path × Path)}
    (hlink : env.Meets args link) :
    Triple (Within h₀ (Area args h₀.fs)) (Within h₀ (Area args h₀.fs))
      (restore_one sha256 (env.one k j) link (build h₀.fs args.scratch_root)
        (build h₀.fs args.cold_root) pairs args.keep_cold)
      (fun _ => Within h₀ (Area args h₀.fs)) (fun _ => Within h₀ (Area args h₀.fs)) := by
  refine Triple.of_each fun h hw => ?_
  have harea : ∀ h', Restoring (env.one k j) link (build h₀.fs args.scratch_root)
      (build h₀.fs args.cold_root) pairs args.keep_cold h h' → Within h₀ (Area args h₀.fs) h' := by
    rintro h' (rfl | ⟨target, hadm, hw'⟩)
    · exact hw
    · exact hw.trans (hw'.mono fun p hp => area_of_places hscratch hadm hp)
  refine (restore_one_rule (hone k j) harea (hw.rooted hroot) (hcanon h hw link hlink)).conseq
    (fun _ _ h => h) (fun _ h' _ hr => harea h' hr.1) ?_
  rintro e h' - rfl
  exact hw

theorem restore_links_area {k : ℕ} {pairs : List (Path × Path)} {links : List Path}
    (hlinks : ∀ link ∈ links, env.Meets args link) {j : ℕ} {counts : ℕ × ℕ} :
    Triple (Within h₀ (Area args h₀.fs)) (Within h₀ (Area args h₀.fs))
      (restore_links sha256 env args (build h₀.fs args.scratch_root) (build h₀.fs args.cold_root)
        pairs k j links counts)
      (fun _ => Within h₀ (Area args h₀.fs)) (fun _ => Within h₀ (Area args h₀.fs)) := by
  induction links generalizing j counts with
  | nil => exact Triple.pure fun _ _ h => h
  | cons link links ih =>
    exact Triple.bind (restore_one_area hone hroot hscratch hcanon (hlinks _ List.mem_cons_self))
      fun ok => ih fun link hlink => hlinks link (List.mem_cons_of_mem _ hlink)

include hmain

omit hone hroot hscratch hcanon in
theorem tests_area {i : MainSite} {look : FS → Except OSError FS.Stat} {good : Node → Bool}
    {A : Host → Prop} {E : OSError → Host → Prop} :
    Triple A A (tests env i look good) (fun _ => A) E := by
  refine Triple.bind (Q := fun _ => A) (Triple.attempt ((Triple.of_ask fun h hI hA => ?_).conseq
    (fun _ _ h => h) (fun _ _ _ h => h.1) fun _ _ _ h => h.1)) fun _ => Triple.pure fun _ _ h => h
  have hb : env.toEnv.before i h = h := hmain i h
  rw [hb]
  exact ⟨hI, hA⟩

omit hone hroot hscratch hcanon in
theorem walked_area {k : ℕ} {p : Path} {A : Host → Prop} {E : OSError → Host → Prop} :
    Triple A A (walked env k p) (fun _ => A) E := by
  refine Triple.bind (tests_area hmain) fun isdir => ?_
  cases isdir with
  | false => exact Triple.pure fun _ _ h => h
  | true => exact Triple.bind (tests_area hmain) fun _ => Triple.pure fun _ _ h => h

theorem restore_path_area {k : ℕ} {p : Path} {pairs : List (Path × Path)} {counts : ℕ × ℕ}
    (hp : p ∈ args.paths) :
    Triple (Within h₀ (Area args h₀.fs)) (Within h₀ (Area args h₀.fs))
      (restore_path sha256 env args (build h₀.fs args.scratch_root) (build h₀.fs args.cold_root)
        pairs k p counts)
      (fun _ => Within h₀ (Area args h₀.fs)) (fun _ => Within h₀ (Area args h₀.fs)) := by
  refine Triple.bind (walked_area hmain) fun walk => ?_
  cases walk with
  | true =>
    exact restore_links_area hone hroot hscratch hcanon fun link hlink => .inr ⟨k, hlink⟩
  | false =>
    refine Triple.bind (restore_one_area hone hroot hscratch hcanon (.inl hp)) fun ok => ?_
    cases ok with
    | true => exact Triple.pure fun _ _ h => h
    | false => exact Triple.bind (tests_area hmain) fun _ => Triple.pure fun _ _ h => h

theorem restore_paths_area {pairs : List (Path × Path)} {paths : List Path}
    (hpaths : ∀ p ∈ paths, p ∈ args.paths) {k : ℕ} {counts : ℕ × ℕ} :
    Triple (Within h₀ (Area args h₀.fs)) (Within h₀ (Area args h₀.fs))
      (restore_paths sha256 env args (build h₀.fs args.scratch_root) (build h₀.fs args.cold_root)
        pairs k paths counts)
      (fun _ => Within h₀ (Area args h₀.fs)) (fun _ => Within h₀ (Area args h₀.fs)) := by
  induction paths generalizing k counts with
  | nil => exact Triple.pure fun _ _ h => h
  | cons p paths ih =>
    exact Triple.bind (restore_path_area hmain hone hroot hscratch hcanon
      (hpaths p List.mem_cons_self)) fun counts =>
        ih fun p hp => hpaths p (List.mem_cons_of_mem _ hp)

/-- However many paths a run is given and whatever fails in it, nothing has changed in any of
its states but names in the directories of its scratch roots and names under its cold roots. -/
theorem scratch_restore_confined :
    ∀ h ∈ (outcomeOf (scratch_restore sha256 env args) h₀).2.states,
      FS.SameBut (Area args h₀.fs) (fun _ => False) h₀.fs h.fs := by
  have hrule : Triple (Within h₀ (Area args h₀.fs)) (· = h₀) (scratch_restore sha256 env args)
      (fun _ _ => True) (fun _ _ => True) := by
    refine Triple.bind (Q := fun roots h => roots = build h₀.fs args.cold_root ∧ h = h₀) ?_
      fun cold_roots => Triple.of_fact ?_
    · rintro tr hI hP
      exact ⟨hI, by rw [hP], hP⟩
    rintro rfl
    show Triple _ _ (if _ then _ else _) _ _
    by_cases hnone : build h₀.fs args.cold_root = []
    · rw [if_pos hnone]
      exact Triple.pure fun _ _ _ => trivial
    rw [if_neg hnone]
    refine Triple.bind (Q := fun roots h => roots = build h₀.fs args.scratch_root ∧ h = h₀) ?_
      fun scratch_roots => Triple.of_fact ?_
    · rintro tr hI hP
      exact ⟨hI, by rw [hP], hP⟩
    rintro rfl
    refine Triple.bind (Triple.of_peek) fun pairs => ?_
    refine Triple.bind (((restore_paths_area hmain hone hroot hscratch hcanon fun p hp =>
      hp).weaken ?_).except fun _ _ _ _ => trivial) fun _ => Triple.pure fun _ _ _ => trivial
    rintro h - rfl
    exact Within.refl _
  exact fun h hh => ((hrule.of_start (Within.refl _) rfl).1 h hh).same

omit hmain hone hroot hscratch hcanon in
/-- An absolute link to a name that is no link, in a real directory, is canonical whatever is
done in the places of a run. -/
theorem canonical_of_real {d : Path} {n : String} {link : Path} {P : Path → Prop} {h : Host}
    (hd : h₀.fs.RealDir d) (hn : Plain n) (hno : ∀ t, h₀.fs.node (d ++ [n]) ≠ some (.link t))
    (hlink : ∀ t, h₀.fs.readlink link = .ok t → t = ⟨true, d ++ [n]⟩) (hw : Within h₀ P h) :
    Canonical h.fs link := by
  intro t st ht _
  obtain ⟨q, hq, hnode⟩ := FS.readlink_ok ht
  have hstart : h₀.fs.readlink link = .ok t := by
    rw [FS.readlink, hw.settled.locate hq]
    simp only [bind, Except.bind, hw.settled.link hnode]
  obtain rfl := hlink t hstart
  have hd' := hw.same.realDir hd
  have hno' : ∀ t, h.fs.node (d ++ [n]) ≠ some (.link t) :=
    fun t ht => hno t (hw.settled.link ht)
  rw [absolute, if_pos rfl, FS.realpath_real hd' hn hno']
  refine ⟨fun m hm => ?_, fun q t hq hp => ?_⟩
  · rcases List.mem_append.mp hm with hm | hm
    · exact hd'.1 m hm
    · rwa [List.mem_singleton.mp hm]
  · rcases List.prefix_concat_iff.mp hp with rfl | hp
    · exact hno' t
    · exact hd'.linkFree.2 q t hq hp

end Run

/-! ### A run -/

/-- The tiers with an archived file: `scratch/a` is a link to `cold/a`. -/
def linkedTiers : FS :=
  ((emptyTiers.newInode ⟨[1, 2, 3], ⟨1000, 100, 0o644#12⟩, 0, 0, 0⟩).setNode ["cold", "a"]
    (.file 0) ⟨by decide, rfl, fun _ => rfl, rfl⟩).setNode ["scratch", "a"]
      (.link ⟨true, ["cold", "a"]⟩) ⟨by decide, rfl, fun _ => rfl, rfl⟩

/-- Restore `scratch/a`, to which the path given leads through a directory and back. -/
def linkedArgs : RestoreArgs where
  paths := [["cold", "..", "scratch", "a"]]
  keep_cold := false
  cold_root := [["cold"]]
  scratch_root := [["scratch"]]
  overflow_map := [(["scratch"], ["cold"])]

/-- Root's run, in which every call succeeds. -/
def linkedEnv : RunEnv where
  walk_links _ := []
  one _ _ := { cp := ⟨3, fun _ _ => 2⟩, urandom := "0f" }

theorem readlink_linked {t : Target}
    (h : linkedTiers.readlink ["cold", "..", "scratch", "a"] = .ok t) : t = ⟨true, ["cold", "a"]⟩ := by
  have hread : linkedTiers.readlink ["cold", "..", "scratch", "a"] = .ok ⟨true, ["cold", "a"]⟩ :=
    rfl
  exact Except.ok.inj (h.symm.trans hread)

theorem rooted_linked : Rooted linkedTiers := by
  intro t ht
  have hnone : linkedTiers.node [] = none := by decide +kernel
  exact absurd (hnone.symm.trans ht) (by simp)

theorem canonical_linked {P : Path → Prop} {h : Host} (hw : Within { fs := linkedTiers } P h) :
    Canonical h.fs ["cold", "..", "scratch", "a"] := by
  refine canonical_of_real (d := ["cold"]) (n := "a") (FS.realDir_nil.concat (by decide)
    (by decide +kernel)) (by decide) (fun t ht => ?_) (fun t ht => readlink_linked ht) hw
  have hfile : linkedTiers.node ["cold", "a"] = some (.file 0) := by decide +kernel
  exact absurd (hfile.symm.trans ht) (by simp)

theorem scratch_restore_confined_linked :
    (outcomeOf (scratch_restore (fun _ => "") linkedEnv linkedArgs)
      { fs := linkedTiers }).1.toOption = some 0 ∧
    ∀ h ∈ (outcomeOf (scratch_restore (fun _ => "") linkedEnv linkedArgs)
        { fs := linkedTiers }).2.states,
      FS.SameBut (Area linkedArgs linkedTiers) (fun _ => False) linkedTiers h.fs := by
  refine ⟨by decide +kernel, scratch_restore_confined (fun _ _ => rfl) (fun _ _ _ _ => rfl)
    rooted_linked (by simp [linkedArgs]) ?_⟩
  rintro h hw link (hlink | ⟨k, hlink⟩)
  · rw [List.mem_singleton.mp hlink]
    exact canonical_linked hw
  · exact absurd hlink List.not_mem_nil

end Scratch
