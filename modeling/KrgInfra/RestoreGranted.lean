/-
What becomes of a restore that the checks have let through, state by state.

The link is any path, and its temporary's name is free.  Until the copy is renamed over the
link only the temporary has changed (`Idle`); then the link's place holds the new file
(`Published`), and only then is the cold file removed.  Whatever new file there is holds bytes
of the cold file from its start on.  A restore in which no call fails comes to its end.

* `Granted` — such a restore; `Smooth` — no call of it fails;
* `Granted.copyLoop_spec` — the copy, and when it is complete;
* `Granted.restore_one_spec` — the whole: `Idle` with the answer `false`, or `Published`.
-/
import KrgInfra.RestoreConfined

namespace Scratch

open Posix

/-! ### A restore that the checks let through -/

/-- One call of `restore_one` behind its checks, with nobody else at work: where its link and
its temporary lie, whose name is free, and the regular file at its target. -/
structure Granted (env : RestoreEnv) (h₀ : Host) (link target : Path) (i₀ : ℕ) : Prop where
  quiet : ∀ i h, env.before i h = h
  atomic : ∀ e, env.outcome .replaceLink ≠ .raise e true
  realDir : h₀.fs.RealDir (h₀.fs.realpath (dirname link))
  linkAt : h₀.fs.locate link = .ok (linkPlace h₀.fs link)
  isLink : ∃ t, h₀.fs.node (linkPlace h₀.fs link) = some (.link t)
  partAt : h₀.fs.locate (tmp_sibling link "sr" env.urandom) =
    .ok (partPlace h₀.fs env.urandom link)
  free : h₀.fs.node (partPlace h₀.fs env.urandom link) = none
  named : target ≠ []
  linkFree : h₀.fs.LinkFree target
  regular : h₀.fs.node target = some (.file i₀)

/-- Nothing fails, and the copy is given enough reads to come to the end of the file. -/
structure Smooth (env : RestoreEnv) (h₀ : Host) (i₀ : ℕ) : Prop where
  ok : ∀ i, env.outcome i = .ok
  stored : env.stored = none
  reads : (h₀.fs.inode i₀).data.length < env.cp.reads

/-- What a file that is new since `h₀` may hold: a part of the file `i₀` from its start on, or
what the storage gives back in the place of it. -/
def OfFile (env : RestoreEnv) (h₀ : Host) (i₀ : ℕ) (b : Bytes) : Prop :=
  b <+: (h₀.fs.inode i₀).data ∨ env.stored = some b

namespace Granted

section States

variable (env : RestoreEnv) (h₀ : Host) (link target : Path) (i₀ : ℕ)

/-- Only the temporary has changed, and a new file holds bytes of the target only. -/
structure Idle (h : Host) : Prop where
  frame : FS.SameBut (· = partPlace h₀.fs env.urandom link) (fun _ => False) h₀.fs h.fs
  walkLimit : h.fs.walkLimit = h₀.fs.walkLimit
  tmp : h.fs.node (partPlace h₀.fs env.urandom link) = none ∨
    ∃ fd, h₀.fs.nextIno ≤ fd ∧ h.fs.node (partPlace h₀.fs env.urandom link) = some (.file fd)
  bytes : ∀ fd, h₀.fs.nextIno ≤ fd → fd < h.fs.nextIno →
    OfFile env h₀ i₀ (h.fs.inode fd).data

/-- And it holds our file `fd`, of which `R` is true. -/
structure Held (fd : ℕ) (R : Inode → Prop) (h : Host) : Prop where
  idle : Idle env h₀ link i₀ h
  node : h.fs.node (partPlace h₀.fs env.urandom link) = some (.file fd)
  ours : h₀.fs.nextIno ≤ fd
  file : R (h.fs.inode fd)

/-- The file is in the place of the link; the cold copy may be gone. -/
structure Published (h : Host) : Prop where
  frame : FS.SameBut (fun p => p = partPlace h₀.fs env.urandom link ∨ p = linkPlace h₀.fs link ∨
    p = target) (fun _ => False) h₀.fs h.fs
  tmp : h.fs.node (partPlace h₀.fs env.urandom link) = none
  file : ∃ fd, h₀.fs.nextIno ≤ fd ∧ h.fs.node (linkPlace h₀.fs link) = some (.file fd)
  cold : h.fs.node target = some (.file i₀) ∨ h.fs.node target = none
  bytes : ∀ fd, h₀.fs.nextIno ≤ fd → fd < h.fs.nextIno →
    OfFile env h₀ i₀ (h.fs.inode fd).data

/-- The temporary's name is free. -/
abbrev Clear (h : Host) : Prop :=
  Idle env h₀ link i₀ h ∧ h.fs.node (partPlace h₀.fs env.urandom link) = none

/-- A call has failed, with the link still there. -/
abbrev Failed (h : Host) : Prop := Idle env h₀ link i₀ h ∧ ¬ Smooth env h₀ i₀

/-- What every state of the restore is. -/
def Safe (h : Host) : Prop := Idle env h₀ link i₀ h ∨ Published env h₀ link target i₀ h

end States

variable {sha256 : Bytes → String} {env : RestoreEnv} {h₀ : Host} {link target : Path} {i₀ : ℕ}
  (hg : Granted env h₀ link target i₀)

include hg

theorem ino_lt : i₀ < h₀.fs.nextIno := h₀.fs.fresh _ _ hg.regular

theorem target_ne_part : target ≠ partPlace h₀.fs env.urandom link := by
  intro h
  have hfile := hg.regular
  rw [h, hg.free] at hfile
  exact absurd hfile (by simp)

theorem target_ne_link : target ≠ linkPlace h₀.fs link := by
  intro h
  obtain ⟨t, ht⟩ := hg.isLink
  have hfile := hg.regular
  rw [h, ht] at hfile
  exact absurd hfile (by simp)

theorem part_ne_link : partPlace h₀.fs env.urandom link ≠ linkPlace h₀.fs link := by
  intro h
  obtain ⟨t, ht⟩ := hg.isLink
  have hfree := hg.free
  rw [h, ht] at hfree
  exact absurd hfree (by simp)

theorem cold : ∃ d n, target = d ++ [n] ∧ h₀.fs.RealDir d ∧ Plain n := by
  obtain ⟨d, n, rfl⟩ := (List.eq_nil_or_concat target).resolve_left hg.named
  rw [List.concat_eq_append]
  have hl := hg.linkFree
  have hr := hg.regular
  rw [List.concat_eq_append] at hl hr
  exact ⟨d, n, rfl, hl.realDir (by simp [hr]), hl.1 n (by simp)⟩

/-- While the directories are there, the target is found at its own path. -/
theorem locate_target {P : Path → Prop} {F : ℕ → Prop} {h : Host}
    (hframe : FS.SameBut P F h₀.fs h.fs) : h.fs.locate target = .ok target := by
  obtain ⟨d, n, rfl, hd, hn⟩ := hg.cold
  exact FS.locate_real (hframe.realDir hd) hn

theorem stat_target {P : Path → Prop} {h : Host}
    (hframe : FS.SameBut P (fun _ => False) h₀.fs h.fs)
    (hnode : h.fs.node target = some (.file i₀)) :
    ∃ st, h.fs.stat target = .ok st ∧ st.node = .file i₀ ∧
      identity st = identity (h₀.fs.fstat i₀) := by
  obtain ⟨d, n, rfl, hd, hn⟩ := hg.cold
  have hno : ∀ t, h.fs.node (d ++ [n]) ≠ some (.link t) :=
    fun t ht => absurd (hnode.symm.trans ht) (by simp)
  refine ⟨h.fs.fstat i₀, ?_, rfl, ?_⟩
  · rw [FS.stat, FS.resolve_real (hframe.realDir hd) hn hno]
    simp only [bind, Except.bind]
    rw [FS.statAt, hnode]
    rfl
  · have hsame := hframe.inode i₀ hg.ino_lt fun hF => hF
    simp only [FS.fstat, identity, hsame]

/-! ### Its states -/

theorem idle_start : Idle env h₀ link i₀ h₀ :=
  ⟨FS.SameBut.refl _, rfl, .inl hg.free, fun _ h h' => absurd h' (Nat.not_lt.mpr h)⟩

omit hg in
/-- A lookup that ended at the start ends there still. -/
theorem Idle.locate {h : Host} (hi : Idle env h₀ link i₀ h)
    (hfree : h₀.fs.node (partPlace h₀.fs env.urandom link) = none) {p q : Path}
    (hq : h₀.fs.locate p = .ok q) : h.fs.locate p = .ok q := by
  rw [FS.locate, hi.walkLimit]
  refine FS.walk_filled (fun r hr => hi.frame.node r hr) hfree ?_ hq
  obtain hn | ⟨fd, -, hn⟩ := hi.tmp
  · exact .inl hn
  · exact .inr ⟨fd, hn⟩

theorem Idle.cold {h : Host} (hi : Idle env h₀ link i₀ h) :
    h.fs.node target = some (.file i₀) :=
  (hi.frame.node _ hg.target_ne_part).trans hg.regular

omit hg in
theorem Idle.setInode {h : Host} {fd : ℕ} {f : Inode} (hi : Idle env h₀ link i₀ h)
    (hfd : h₀.fs.nextIno ≤ fd) (hf : OfFile env h₀ i₀ f.data) :
    Idle env h₀ link i₀ { h with fs := h.fs.setInode fd f } := by
  refine ⟨hi.frame.extend (FS.sameBut_setInode fd f) (fun _ hp => hp.elim) ?_, hi.walkLimit, hi.tmp,
    fun j hj hj' => ?_⟩
  · rintro i hi rfl
    exact absurd hfd (Nat.not_le.mpr hi)
  · simp only [FS.inode_setInode]
    rcases eq_or_ne j fd with rfl | hne
    · rwa [Function.update_self]
    · rw [Function.update_of_ne hne]
      exact hi.bytes j hj hj'

/-! ### The calls -/

omit hg in
/-- A call that is made to raise fails. -/
theorem not_smooth {i : RestoreSite} {e : OSError} {done : Bool}
    (ho : env.outcome i = .raise e done) : ¬ Smooth env h₀ i₀ :=
  fun hs => absurd (ho.symm.trans (hs.ok i)) (by simp)

section Calls

variable {A Q R : Host → Prop}

theorem undisturbed {i : RestoreSite} (h : Host) (hI : Safe env h₀ link target i₀ h) (hA : A h) :
    Safe env h₀ link target i₀ (env.toEnv.before i h) ∧ A (env.toEnv.before i h) := by
  have hb : env.toEnv.before i h = h := hg.quiet i h
  rw [hb]
  exact ⟨hI, hA⟩

/-- A call that only looks: it raises only where a call fails, or what it asks for has no
answer. -/
theorem look {α : Type} {i : RestoreSite} {f : FS → Except OSError α} :
    Triple (Safe env h₀ link target i₀) A (rsys env i (ask f)) (fun a h => A h ∧ f h.fs = .ok a)
      (fun _ h => A h ∧ (Smooth env h₀ i₀ → ∃ e, f h.fs = .error e)) :=
  (Triple.of_ask (hg.undisturbed)).except fun e _ _ h => ⟨h.1, fun hs => ⟨e, h.2 (hs.ok i)⟩⟩

/-- A call that only looks at what is there. -/
theorem find {α : Type} {i : RestoreSite} {f : FS → Except OSError α}
    (hf : ∀ h, A h → ∃ a, f h.fs = .ok a) :
    Triple (Safe env h₀ link target i₀) A (rsys env i (ask f)) (fun a h => A h ∧ f h.fs = .ok a)
      (fun _ h => A h ∧ ¬ Smooth env h₀ i₀) := by
  refine hg.look.except ?_
  rintro e h - ⟨hA, he⟩
  refine ⟨hA, fun hs => ?_⟩
  obtain ⟨e, he⟩ := he hs
  obtain ⟨a, ha⟩ := hf h hA
  exact absurd (he.symm.trans ha) (by simp)

/-- A call that changes the file system; where it raises, a call fails. -/
theorem alter {i : RestoreSite} {f : FS → Except OSError FS}
    (hsafe : ∀ h, R h → Safe env h₀ link target i₀ h)
    (hAR : ∀ h, A h → R h) (hQR : ∀ h, Q h → R h)
    (hok : ∀ h fs', A h → f h.fs = .ok fs' → Q { h with fs := fs' })
    (hend : ∀ h, A h → Smooth env h₀ i₀ → ∃ fs', f h.fs = .ok fs') :
    Triple (Safe env h₀ link target i₀) A (rsys env i (change f)) (fun _ => Q)
      (fun _ h => R h ∧ ¬ Smooth env h₀ i₀) := by
  refine Triple.of_call A hg.undisturbed ?_ ?_
  · intro h hI hA
    obtain ⟨fs', hr, hact⟩ | ⟨e, hr, hact⟩ := change_cases f h
    · rw [hact]
      exact ⟨hsafe _ (hQR _ (hok h fs' hA hr)), hok h fs' hA hr⟩
    · rw [hact]
      refine ⟨hI, hAR h hA, fun hs => ?_⟩
      obtain ⟨fs', hr'⟩ := hend h hA hs
      exact absurd (hr.symm.trans hr') (by simp)
  · rintro e done h ho - hA
    refine ⟨?_, not_smooth ho⟩
    cases done with
    | false => exact hAR h hA
    | true =>
      obtain ⟨fs', hr, hact⟩ | ⟨e, hr, hact⟩ := change_cases f h
      · rw [if_pos rfl, hact]
        exact hQR _ (hok h fs' hA hr)
      · rw [if_pos rfl, hact]
        exact hAR h hA

/-- A call through the descriptor of our file. -/
theorem held_fd {i : RestoreSite} {fd : ℕ} {R S : Inode → Prop} {g : FS → FS} {f : FS → Inode}
    (hset : ∀ fs, g fs = fs.setInode fd (f fs)) (hR : ∀ fs, R (fs.inode fd) → S (f fs))
    (hS : ∀ x, S x → OfFile env h₀ i₀ x.data) :
    Triple (Safe env h₀ link target i₀) (Held env h₀ link i₀ fd R)
      (rsys env i (changeFd g)) (fun _ => Held env h₀ link i₀ fd S)
      (fun _ => Failed env h₀ link i₀) := by
  refine hg.alter (fun _ => .inl) (fun _ hh => hh.idle) (fun _ hh => hh.idle) ?_
    fun h _ _ => ⟨g h.fs, rfl⟩
  intro h fs' hh hfs
  obtain rfl : h.fs.setInode fd (f h.fs) = fs' := by rw [← hset, Except.ok.inj hfs]
  exact ⟨hh.idle.setInode hh.ours (hS _ (hR _ hh.file)), hh.node, hh.ours, by simpa using hR _ hh.file⟩

/-- A call through a descriptor that changes nothing. -/
theorem rest {i : RestoreSite} :
    Triple (Safe env h₀ link target i₀) A (rsys env i (changeFd id)) (fun _ => A)
      (fun _ h => A h ∧ ¬ Smooth env h₀ i₀) := by
  refine Triple.of_call A hg.undisturbed (fun h hI hA => ⟨hI, hA⟩) ?_
  rintro e done h ho - hA
  refine ⟨?_, not_smooth ho⟩
  cases done with
  | false => exact hA
  | true => exact hA

/-- Removing the temporary. -/
theorem unlinkPart {i : RestoreSite} :
    Triple (Safe env h₀ link target i₀) (Failed env h₀ link i₀)
      (rsys env i (change (·.unlink (tmp_sibling link "sr" env.urandom))))
      (fun _ => Failed env h₀ link i₀) (fun _ => Failed env h₀ link i₀) := by
  refine hg.alter (R := Idle env h₀ link i₀) (fun _ => .inl) (fun _ h => h.1) (fun _ h => h.1) ?_
    fun h hA hs => absurd hs hA.2
  rintro h fs' ⟨hi, hs⟩ hu
  obtain ⟨q, hdir, hq, rfl⟩ := FS.unlink_ok hu
  rw [hi.locate hg.free hg.partAt, Except.ok.injEq] at hq
  subst hq
  refine ⟨⟨hi.frame.extend (FS.sameBut_clearNode hdir) (fun _ hp => hp) fun _ _ hF => hF.elim,
    hi.walkLimit, .inl (by simp), hi.bytes⟩, hs⟩

end Calls

/-! ### The copy -/

omit hg in
theorem ofFile_prefix {b : Bytes} (h : b <+: (h₀.fs.inode i₀).data) : OfFile env h₀ i₀ b := .inl h

/-- The new file of the copy. -/
theorem Idle.create {h : Host} {fs' : FS} {fd : ℕ} {mode : BitVec 12} (hi : Idle env h₀ link i₀ h)
    (hc : h.fs.createExcl (tmp_sibling link "sr" env.urandom) mode = .ok (fd, fs')) :
    Held env h₀ link i₀ fd (fun f => f.data = []) { h with fs := fs' } := by
  have hsame := FS.sameBut_createExcl hc
  have hat := hi.locate hg.free hg.partAt
  obtain ⟨rfl, hcreate⟩ := FS.createExcl_ok hc
  obtain ⟨q, hset, hq, -, rfl⟩ := FS.create_ok hcreate
  rw [FS.locate_newInode, hat, Except.ok.injEq] at hq
  subst hq
  have hn : ((h.fs.newInode _).setNode (partPlace h₀.fs env.urandom link) (.file h.fs.nextIno)
      hset).node (partPlace h₀.fs env.urandom link) = some (.file h.fs.nextIno) := by
    rw [FS.node_setNode, Function.update_self]
  refine ⟨⟨hi.frame.extend hsame ?_ fun _ _ hF => hF.elim, hi.walkLimit,
    .inr ⟨_, hi.frame.nextIno, hn⟩, fun j hj hj' => ?_⟩, hn, hi.frame.nextIno, by simp⟩
  · intro p hp
    rw [hat, Except.ok.injEq] at hp
    exact hp.symm
  · simp only [FS.inode_setNode, FS.inode_newInode]
    rcases eq_or_ne j h.fs.nextIno with rfl | hne
    · rw [Function.update_self]
      exact ofFile_prefix List.nil_prefix
    · rw [Function.update_of_ne hne]
      exact hi.bytes j hj (Nat.lt_of_le_of_ne (Nat.le_of_lt_succ hj') hne)

theorem createPart {i : RestoreSite} :
    Triple (Safe env h₀ link target i₀) (Clear env h₀ link i₀)
      (rsys env i (Work.update fun h =>
        (h.fs.createExcl (tmp_sibling link "sr" env.urandom) 0o600#12).map
          fun x => (x.1, { h with fs := x.2 })))
      (fun fd => Held env h₀ link i₀ fd (fun f => f.data = []))
      (fun _ => Failed env h₀ link i₀) := by
  refine Triple.of_call (Clear env h₀ link i₀) hg.undisturbed ?_ ?_
  · rintro h hI ⟨hi, hn⟩
    have hdir : h.fs.isDir (partPlace h₀.fs env.urandom link).dropLast = true := by
      rw [partPlace, List.dropLast_concat]
      exact (hi.frame.realDir hg.realDir).2 _ List.prefix_rfl
    obtain ⟨fs', hc⟩ := FS.createExcl_free 0o600#12 (hi.locate hg.free hg.partAt) hn
      (by simp [partPlace]) hdir
    have hh := hi.create hg hc
    simp only [Work.update, hc, Except.map]
    exact ⟨.inl hh.idle, hh⟩
  · rintro e done h ho - ⟨hi, hn⟩
    refine ⟨?_, not_smooth ho⟩
    cases done with
    | false => exact hi
    | true =>
      cases hc : h.fs.createExcl (tmp_sibling link "sr" env.urandom) 0o600#12 with
      | error e =>
        simp only [Work.update, hc, Except.map, if_true]
        exact hi
      | ok x =>
        simp only [Work.update, hc, Except.map, if_true]
        exact (hi.create hg hc).idle

/-- The copy has the target's bytes from the start on: all of them, if it has reads enough. -/
theorem copyLoop_spec {fd : ℕ} : ∀ (n k : ℕ) (acc : Bytes), acc <+: (h₀.fs.inode i₀).data →
    Triple (Safe env h₀ link target i₀) (Held env h₀ link i₀ fd (fun f => f.data = acc))
      (copyLoop env.toEnv .copy env.cp i₀ fd n k acc)
      (fun read h => read <+: (h₀.fs.inode i₀).data ∧
        ((h₀.fs.inode i₀).data.length < acc.length + n → read = (h₀.fs.inode i₀).data) ∧
        Held env h₀ link i₀ fd (fun f => f.data = read) h)
      (fun _ => Failed env h₀ link i₀) := by
  intro n
  induction n with
  | zero =>
    intro k acc hpre
    refine Triple.pure fun h _ hh => ⟨hpre, fun hlt => ?_, hh⟩
    exact absurd hpre.length_le (Nat.not_le.mpr hlt)
  | succ n ih =>
    intro k acc hpre
    rw [copyLoop]
    refine Triple.bind (Q := fun buf h =>
      buf = ((h₀.fs.inode i₀).data.drop acc.length).take COPY_CHUNK ∧
        Held env h₀ link i₀ fd (fun f => f.data = acc) h) ?_ fun buf => Triple.of_fact fun hbuf => ?_
    · refine (hg.find (A := Held env h₀ link i₀ fd fun f => f.data = acc)
        (f := fun fs => .ok (((fs.inode i₀).data.drop acc.length).take COPY_CHUNK))
        fun h _ => ⟨_, rfl⟩).conseq (fun _ _ h => h) ?_ fun _ _ _ h => ⟨h.1.idle, h.2⟩
      rintro buf h - ⟨hh, hb⟩
      have hsame := hh.idle.frame.inode _ hg.ino_lt fun hF => hF
      rw [hsame] at hb
      exact ⟨(Except.ok.inj hb).symm, hh⟩
    have hnext : acc ++ buf <+: (h₀.fs.inode i₀).data := by
      obtain ⟨t, ht⟩ := hpre
      rw [hbuf, ← ht, List.drop_left]
      exact (List.prefix_append_right_inj acc).mpr (List.take_prefix _ t)
    by_cases hnil : buf = []
    · rw [if_pos hnil]
      refine Triple.pure fun h _ hh => ⟨hpre, fun _ => ?_, hh⟩
      -- a read that finds nothing is at the end of the file
      rw [hnil, eq_comm, List.take_eq_nil_iff, List.drop_eq_nil_iff] at hbuf
      exact hpre.eq_of_length_le (hbuf.resolve_left (by decide))
    · rw [if_neg hnil]
      have hpos : 0 < buf.length := List.length_pos_iff.mpr hnil
      have hwrite : ∀ data bs j, data ++ bs <+: acc ++ buf →
          Triple (Safe env h₀ link target i₀) (Held env h₀ link i₀ fd fun f => f.data = data)
            (call env.toEnv (.copy (.write k j)) (changeFd (·.append fd bs)))
            (fun _ => Held env h₀ link i₀ fd fun f => f.data = data ++ bs)
            (fun _ => Failed env h₀ link i₀) := by
        intro data bs j hbs
        refine hg.held_fd (fun _ => rfl) ?_ ?_
        · rintro fs rfl
          rfl
        · intro x hx
          rw [hx]
          exact ofFile_prefix (hbs.trans hnext)
      refine Triple.bind (@drain_rule _ env.toEnv .copy env.cp _ _ fd
        (fun data _ => Held env h₀ link i₀ fd fun f => f.data = data) k (acc ++ buf) hwrite
        buf.length 0 buf acc le_rfl List.prefix_rfl) fun _ => ?_
      refine (ih (k + 1) (acc ++ buf) hnext).conseq (fun _ _ h => h) ?_ fun _ _ _ h => h
      rintro read h - ⟨hread, hall, hh⟩
      refine ⟨hread, fun hlt => hall ?_, hh⟩
      rw [List.length_append]
      omega

theorem copy_spec {sha256 : Bytes → String} :
    Triple (Safe env h₀ link target i₀) (Clear env h₀ link i₀)
      (copy_and_hash sha256 env.toEnv .copy env.cp target (tmp_sibling link "sr" env.urandom))
      (fun x h => ∃ read, x.1 = sha256 read ∧ x.2.1 = read.length ∧
        read <+: (h₀.fs.inode i₀).data ∧ (Smooth env h₀ i₀ → read = (h₀.fs.inode i₀).data) ∧
        Held env h₀ link i₀ x.2.2 (fun f => f.data = read) h)
      (fun _ => Failed env h₀ link i₀) := by
  refine Triple.bind (Q := fun src_fd h => src_fd = i₀ ∧ Clear env h₀ link i₀ h) ?_ fun src_fd =>
    Triple.of_fact ?_
  · refine (hg.find (A := Clear env h₀ link i₀) ?_).conseq (fun _ _ h => h) ?_
        fun _ _ _ h => ⟨h.1.1, h.2⟩
    · rintro h ⟨hi, -⟩
      refine ⟨i₀, ?_⟩
      rw [FS.openRead, hg.locate_target hi.frame]
      simp only [bind, Except.bind, hi.cold hg]
    · rintro src_fd h - ⟨⟨hi, hn⟩, ho⟩
      obtain ⟨q, hq, hnode⟩ := FS.openRead_ok ho
      rw [hg.locate_target hi.frame, Except.ok.injEq] at hq
      subst hq
      rw [hi.cold hg, Option.some_inj, Node.file.injEq] at hnode
      exact ⟨hnode.symm, hi, hn⟩
  rintro rfl
  refine Triple.bind hg.createPart fun fd => ?_
  refine Triple.bind (hg.copyLoop_spec env.cp.reads 0 [] List.nil_prefix) fun read => ?_
  refine Triple.of_fact fun hread => Triple.of_fact fun hall => ?_
  refine Triple.bind (hg.rest.except fun _ _ _ h => ⟨h.1.idle, h.2⟩) fun _ => ?_
  refine Triple.bind (hg.rest.except fun _ _ _ h => ⟨h.1.idle, h.2⟩) fun _ => ?_
  refine Triple.pure fun h _ hh => ⟨read, rfl, rfl, hread, fun hs => hall ?_, hh⟩
  rw [List.length_nil, Nat.zero_add]
  exact hs.reads

/-! ### Verifying and publishing -/

/-- The target is found unchanged, unless a call fails. -/
theorem restat_spec {i : RestoreSite} {A : Host → Prop} {tst : FS.Stat} {E : OSError → Host → Prop}
    (htst : identity tst = identity (h₀.fs.fstat i₀))
    (hA : ∀ h, A h → (∃ P, FS.SameBut P (fun _ => False) h₀.fs h.fs) ∧
      h.fs.node target = some (.file i₀)) :
    Triple (Safe env h₀ link target i₀) A (attempt (rsys env i (ask (·.stat target))))
      (fun st h => (st.map identity ≠ some (identity tst) → ¬ Smooth env h₀ i₀) ∧ A h) E := by
  refine Triple.attempt ((hg.find fun h hh => ?_).conseq (fun _ _ h => h) ?_ ?_)
  · obtain ⟨⟨P, hframe⟩, hnode⟩ := hA h hh
    obtain ⟨st, hst, -, -⟩ := hg.stat_target hframe hnode
    exact ⟨st, hst⟩
  · rintro st h - ⟨hh, hst⟩
    obtain ⟨⟨P, hframe⟩, hnode⟩ := hA h hh
    obtain ⟨st', hst', -, hid⟩ := hg.stat_target hframe hnode
    refine ⟨fun hne => absurd ?_ hne, hh⟩
    rw [Option.map_some, Except.ok.inj (hst.symm.trans hst'), hid, htst]
  · rintro e h - ⟨hh, hs⟩
    exact ⟨fun _ => hs, hh⟩

theorem reread_spec {sha256 : Bytes → String} {fd : ℕ} {read : Bytes}
    (hread : read <+: (h₀.fs.inode i₀).data) :
    Triple (Safe env h₀ link target i₀) (Held env h₀ link i₀ fd (fun f => f.data = read))
      (reread_sha256 sha256 env fd)
      (fun sha h => (Smooth env h₀ i₀ → sha = sha256 read) ∧
        Held env h₀ link i₀ fd (fun f => OfFile env h₀ i₀ f.data) h)
      (fun _ => Failed env h₀ link i₀) := by
  have hheld : ∀ h, Held env h₀ link i₀ fd (fun f => f.data = read) h →
      Held env h₀ link i₀ fd (fun f => OfFile env h₀ i₀ f.data)
        (Restoration.rereadHost env fd h) := by
    intro h hh
    unfold Restoration.rereadHost
    cases hst : env.stored with
    | none =>
      refine ⟨hh.idle, hh.node, hh.ours, ?_⟩
      rw [hh.file]
      exact ofFile_prefix hread
    | some b =>
      have hb : OfFile env h₀ i₀ b := .inr hst
      exact ⟨hh.idle.setInode hh.ours hb, hh.node, hh.ours, by simpa using hb⟩
  rw [reread_sha256, rsys]
  refine Triple.of_call (Held env h₀ link i₀ fd fun f => f.data = read) hg.undisturbed ?_ ?_
  · intro h _ hh
    refine ⟨.inl (hheld h hh).idle, fun hs => ?_, hheld h hh⟩
    simp only [hs.stored, hh.file]
  · rintro e done h ho - hh
    refine ⟨?_, not_smooth ho⟩
    cases done with
    | false => exact hh.idle
    | true => exact (hheld h hh).idle

theorem copy_matches_spec {sha256 : Bytes → String} {tst : FS.Stat} {fd : ℕ} {read : Bytes}
    (htst : identity tst = identity (h₀.fs.fstat i₀)) (hread : read <+: (h₀.fs.inode i₀).data)
    (hall : Smooth env h₀ i₀ → read = (h₀.fs.inode i₀).data) :
    Triple (Safe env h₀ link target i₀) (Held env h₀ link i₀ fd (fun f => f.data = read))
      (copy_matches sha256 env tst (sha256 read) read.length fd)
      (fun ok h => (ok = false → ¬ Smooth env h₀ i₀) ∧
        Held env h₀ link i₀ fd (fun f => OfFile env h₀ i₀ f.data) h)
      (fun _ => Failed env h₀ link i₀) := by
  have hsize : tst.size = (h₀.fs.inode i₀).data.length := congrArg (·.2.1) htst
  rw [copy_matches]
  by_cases hlen : read.length ≠ tst.size
  · rw [if_pos hlen]
    refine Triple.pure fun h _ hh => ⟨fun _ hs => hlen ?_, hh.idle, hh.node, hh.ours, ?_⟩
    · rw [hall hs, hsize]
    · rw [hh.file]
      exact ofFile_prefix hread
  · rw [if_neg hlen]
    refine Triple.bind (hg.reread_spec hread) fun sha => Triple.pure ?_
    rintro h - ⟨hsha, hh⟩
    refine ⟨fun hno hs => ?_, hh⟩
    rw [hsha hs] at hno
    exact absurd hno (by simp)

theorem restore_meta_spec {tst : FS.Stat} {fd : ℕ} :
    Triple (Safe env h₀ link target i₀)
      (Held env h₀ link i₀ fd (fun f => OfFile env h₀ i₀ f.data)) (restore_meta env tst fd)
      (fun _ => Held env h₀ link i₀ fd (fun f => OfFile env h₀ i₀ f.data))
      (fun _ => Failed env h₀ link i₀) := by
  refine Triple.bind (hg.held_fd (fun _ => rfl) (fun _ hR => hR) fun _ hS => hS) fun _ => ?_
  refine Triple.bind (hg.held_fd (fun _ => rfl) (fun _ hR => hR) fun _ hS => hS) fun _ => ?_
  refine Triple.bind (Q := fun _ => Held env h₀ link i₀ fd (fun f => OfFile env h₀ i₀ f.data)) ?_
    fun _ => hg.rest.except fun _ _ _ h => ⟨h.1.idle, h.2⟩
  rw [restore_owner]
  split_ifs
  · exact hg.held_fd (fun _ => rfl) (fun _ hR => hR) fun _ hS => hS
  · exact Triple.pure fun _ _ h => h

/-- Our file is at the temporary, or a call has failed. -/
theorem restore_verify_spec {sha256 : Bytes → String} {tst : FS.Stat} {fd : ℕ} {read : Bytes}
    (htst : identity tst = identity (h₀.fs.fstat i₀)) (hread : read <+: (h₀.fs.inode i₀).data)
    (hall : Smooth env h₀ i₀ → read = (h₀.fs.inode i₀).data) :
    Triple (Safe env h₀ link target i₀) (Held env h₀ link i₀ fd (fun f => f.data = read))
      (restore_verify sha256 env tst target (tmp_sibling link "sr" env.urandom) (sha256 read)
        read.length fd)
      (fun ok h => (ok = false ∧ Failed env h₀ link i₀ h) ∨
        (ok = true ∧ Held env h₀ link i₀ fd (fun f => OfFile env h₀ i₀ f.data) h))
      (fun _ => Failed env h₀ link i₀) := by
  refine Triple.bind (hg.copy_matches_spec htst hread hall) fun same => Triple.of_fact ?_
  intro hsame
  cases same with
  | false =>
    refine Triple.bind (hg.unlinkPart.weaken fun h _ hh => ⟨hh.idle, hsame rfl⟩) fun _ => ?_
    exact Triple.pure fun _ _ h => .inl ⟨rfl, h⟩
  | true =>
    refine Triple.bind hg.restore_meta_spec fun _ => ?_
    refine Triple.bind (hg.restat_spec htst fun h hh =>
      ⟨⟨_, hh.idle.frame⟩, hh.idle.cold hg⟩) fun tcur => Triple.of_fact fun hcur => ?_
    by_cases hid : tcur.map identity ≠ some (identity tst)
    · rw [if_pos hid]
      refine Triple.bind (hg.unlinkPart.weaken fun h _ hh => ⟨hh.idle, hcur hid⟩) fun _ => ?_
      exact Triple.pure fun _ _ h => .inl ⟨rfl, h⟩
    rw [if_neg hid]
    have hlstat : ∀ h, Held env h₀ link i₀ fd (fun f => OfFile env h₀ i₀ f.data) h →
        h.fs.lstat (tmp_sibling link "sr" env.urandom) = .ok (h.fs.fstat fd) := by
      intro h hh
      rw [FS.lstat, hh.idle.locate hg.free hg.partAt]
      simp only [bind, Except.bind]
      rw [FS.statAt, hh.node]
      rfl
    refine Triple.bind ((hg.find fun h hh => ⟨_, hlstat h hh⟩).except
      fun _ _ _ h => ⟨h.1.idle, h.2⟩) fun lp => ?_
    refine Triple.bind ((hg.find fun h _ => ⟨h.fs.fstat fd, rfl⟩).except
      fun _ _ _ h => ⟨h.1.1.idle, h.2⟩) fun fst => ?_
    show Triple _ _ (if _ then _ else _) _ _
    by_cases hswapped : lp.node.isLink = true ∨ lp.ino ≠ fst.ino
    · rw [if_pos hswapped]
      refine Triple.throw ?_
      rintro h - ⟨⟨hh, hlp⟩, hfst⟩
      -- it is our own file that both calls have found
      rw [← Except.ok.inj ((hlstat h hh).symm.trans hlp), ← Except.ok.inj hfst] at hswapped
      exact absurd hswapped (by simp [FS.fstat, Node.isLink])
    · rw [if_neg hswapped]
      exact Triple.pure fun _ _ h => .inr ⟨rfl, h.1.1⟩

/-- The copy takes the place of the link. -/
theorem Held.publish {h : Host} {fd : ℕ} {R : Inode → Prop} (hh : Held env h₀ link i₀ fd R h) :
    ∃ fs', h.fs.replace (tmp_sibling link "sr" env.urandom) link = .ok fs' ∧
      Published env h₀ link target i₀ { h with fs := fs' } ∧
      fs'.node target = some (.file i₀) := by
  obtain ⟨t, ht⟩ := hg.isLink
  have hpart := hh.idle.locate hg.free hg.partAt
  have hlink := hh.idle.locate hg.free hg.linkAt
  have hdir : h.fs.isDir (linkPlace h₀.fs link).dropLast = true := by
    rw [linkPlace, List.dropLast_concat]
    exact (hh.idle.frame.realDir hg.realDir).2 _ List.prefix_rfl
  obtain ⟨fs', hrep, hfrom, hto, hino, hnext⟩ := FS.replace_link hpart hlink hh.node
    ((hh.idle.frame.node _ hg.part_ne_link.symm).trans ht) (by simp [partPlace]) (by simp [linkPlace])
    hdir
  have hsame := FS.sameBut_replace hrep
  have hP : ∀ p, h.fs.locate (tmp_sibling link "sr" env.urandom) = .ok p ∨
      h.fs.locate link = .ok p →
      p = partPlace h₀.fs env.urandom link ∨ p = linkPlace h₀.fs link := by
    rintro p (hp | hp)
    · rw [hpart, Except.ok.injEq] at hp
      exact .inl hp.symm
    · rw [hlink, Except.ok.injEq] at hp
      exact .inr hp.symm
  have hcold : fs'.node target = some (.file i₀) := by
    rw [hsame.node target fun hp => ?_, hh.idle.cold hg]
    obtain hp | hp := hP _ hp
    · exact hg.target_ne_part hp
    · exact hg.target_ne_link hp
  refine ⟨fs', hrep, ⟨?_, hfrom, ⟨fd, hh.ours, hto⟩, .inl hcold, ?_⟩, hcold⟩
  · refine (hh.idle.frame.mono (fun _ hp => .inl hp) fun _ _ hF => hF).extend hsame ?_
      fun _ _ hF => hF.elim
    intro p hp
    obtain hp | hp := hP p hp
    · exact .inl hp
    · exact .inr (.inl hp)
  · show ∀ j, h₀.fs.nextIno ≤ j → j < fs'.nextIno → OfFile env h₀ i₀ (fs'.inode j).data
    rw [hino, hnext]
    exact hh.idle.bytes

theorem replaceLink_spec (fd : ℕ) (R : Inode → Prop) :
    Triple (Safe env h₀ link target i₀) (Held env h₀ link i₀ fd R)
      (rsys env .replaceLink (change (·.replace (tmp_sibling link "sr" env.urandom) link)))
      (fun _ h => Published env h₀ link target i₀ h ∧ h.fs.node target = some (.file i₀))
      (fun _ => Failed env h₀ link i₀) := by
  refine Triple.of_call (Held env h₀ link i₀ fd R) hg.undisturbed ?_ ?_
  · intro h _ hh
    obtain ⟨fs', hrep, hpub, hcold⟩ := hh.publish hg
    simp only [change, Work.update, hrep, Except.map]
    exact ⟨.inr hpub, hpub, hcold⟩
  · rintro e done h ho - hh
    cases done with
    | false => exact ⟨hh.idle, not_smooth ho⟩
    -- a rename that raises has not happened
    | true => exact absurd ho (hg.atomic e)

/-- The `try` block. -/
theorem restore_copy_spec {sha256 : Bytes → String} {tst : FS.Stat}
    (htst : identity tst = identity (h₀.fs.fstat i₀)) :
    Triple (Safe env h₀ link target i₀) (· = h₀)
      (restore_copy sha256 env tst link target (tmp_sibling link "sr" env.urandom))
      (fun ok h => (ok = false ∧ Failed env h₀ link i₀ h) ∨
        (ok = true ∧ Published env h₀ link target i₀ h ∧ h.fs.node target = some (.file i₀)))
      (fun _ => Failed env h₀ link i₀) := by
  refine Triple.bind (Q := fun _ => Clear env h₀ link i₀) ?_ fun _ => ?_
  · -- the temporary's name is free, so there is nothing to clear
    refine Triple.bind (Q := fun there h => there = false ∧ h = h₀) (Triple.map
      (Q := fun st h => st = none ∧ h = h₀) (Triple.attempt (hg.look.conseq (fun _ _ h => h) ?_ ?_))
      ?_) fun there => Triple.of_fact ?_
    · rintro st h - ⟨rfl, hst⟩
      rw [FS.lstat, hg.partAt] at hst
      simp only [bind, Except.bind] at hst
      rw [FS.statAt, hg.free] at hst
      exact absurd hst (by simp)
    · rintro e h - ⟨rfl, -⟩
      exact ⟨rfl, rfl⟩
    · rintro st h - ⟨rfl, rfl⟩
      exact ⟨rfl, rfl⟩
    · rintro rfl
      refine Triple.pure ?_
      rintro h - rfl
      exact ⟨hg.idle_start, hg.free⟩
  refine Triple.bind hg.copy_spec ?_
  rintro ⟨sha, n, fd⟩
  refine Triple.exists_pre fun read => Triple.of_fact ?_
  rintro rfl
  refine Triple.of_fact ?_
  rintro rfl
  refine Triple.of_fact fun hread => Triple.of_fact fun hall => ?_
  refine Triple.bind (Triple.withFinally (B := fun ok h =>
    (ok = false ∧ Failed env h₀ link i₀ h) ∨
      (ok = true ∧ Held env h₀ link i₀ fd (fun f => OfFile env h₀ i₀ f.data) h))
    (hg.restore_verify_spec htst hread hall) ?_ ?_) ?_
  · intro ok
    refine hg.rest.except ?_
    rintro e h - ⟨⟨-, hi, -⟩ | ⟨-, hh⟩, hs⟩
    · exact ⟨hi, hs⟩
    · exact ⟨hh.idle, hs⟩
  · exact fun e => hg.rest.except fun _ _ _ h => h.1
  · intro verified
    cases verified with
    | false =>
      refine Triple.pure ?_
      rintro h - (⟨-, hi⟩ | ⟨hc, -⟩)
      · exact .inl ⟨rfl, hi⟩
      · exact absurd hc (by simp)
    | true =>
      refine Triple.bind ((hg.replaceLink_spec fd fun f => OfFile env h₀ i₀ f.data).weaken ?_)
        fun _ => Triple.pure fun _ _ h => .inr ⟨rfl, h⟩
      rintro h - (⟨hc, -⟩ | ⟨-, hh⟩)
      · exact absurd hc (by simp)
      · exact hh

/-! ### The whole -/

theorem cleanup_spec {E : OSError → Host → Prop} :
    Triple (Safe env h₀ link target i₀) (Failed env h₀ link i₀)
      (cleanup env.toEnv .lexistsPartCleanup .unlinkPart (tmp_sibling link "sr" env.urandom))
      (fun _ => Failed env h₀ link i₀) E := by
  refine Triple.attempt (Triple.bind (Q := fun _ => Failed env h₀ link i₀)
    (Triple.map (Q := fun _ => Failed env h₀ link i₀)
      (Triple.attempt (hg.look.conseq (fun _ _ h => h) (fun _ _ _ h => h.1) fun _ _ _ h => h.1))
      fun _ _ _ h => h) fun there => ?_)
  cases there with
  | false => exact Triple.pure fun _ _ h => h
  | true => exact hg.unlinkPart

/-- Removing the cold copy removes the target, and no other name. -/
theorem Published.unlink {h : Host} (hp : Published env h₀ link target i₀ h)
    (hcold : h.fs.node target = some (.file i₀)) :
    ∃ fs', h.fs.unlink target = .ok fs' ∧ Published env h₀ link target i₀ { h with fs := fs' } ∧
      fs'.node target = none := by
  have hdir : h.fs.isDir target = false := by
    rw [FS.isDir_of_node hg.named hcold]
    rfl
  refine ⟨h.fs.clearNode target hdir, ?_, ⟨?_, ?_, ?_, .inr (by simp), hp.bytes⟩, by simp⟩
  · rw [FS.unlink, hg.locate_target hp.frame]
    simp only [bind, Except.bind, hcold, dif_pos hdir]
  · exact hp.frame.extend (FS.sameBut_clearNode hdir) (fun _ hq => .inr (.inr hq))
      fun _ _ hF => hF.elim
  · exact (Function.update_of_ne hg.target_ne_part.symm _ _).trans hp.tmp
  · obtain ⟨fd, hfd, hn⟩ := hp.file
    exact ⟨fd, hfd, (Function.update_of_ne hg.target_ne_link.symm _ _).trans hn⟩

theorem drop_cold_spec {tst : FS.Stat} {E : OSError → Host → Prop}
    (htst : identity tst = identity (h₀.fs.fstat i₀)) :
    Triple (Safe env h₀ link target i₀)
      (fun h => Published env h₀ link target i₀ h ∧ h.fs.node target = some (.file i₀))
      (drop_cold env tst target)
      (fun _ h => Published env h₀ link target i₀ h ∧
        (Smooth env h₀ i₀ → h.fs.node target = none)) E := by
  refine Triple.bind (hg.restat_spec htst fun h hh => ⟨⟨_, hh.1.frame⟩, hh.2⟩) fun tst2 =>
    Triple.of_fact fun hcur => ?_
  by_cases hid : tst2.map identity = some (identity tst)
  · rw [if_pos hid]
    refine Triple.attempt ((hg.alter (R := Published env h₀ link target i₀) (fun _ => .inr)
      (fun _ hh => hh.1) (fun _ hh => hh.1) (Q := fun h => Published env h₀ link target i₀ h ∧
        h.fs.node target = none) ?_ ?_).conseq (fun _ _ h => h) (fun _ _ _ h => ⟨h.1, fun _ => h.2⟩)
          fun _ _ _ h => ⟨h.1, fun hs => absurd hs h.2⟩)
    · rintro h fs' ⟨hp, hcold⟩ hu
      obtain ⟨fs'', hu', hp', hn⟩ := hp.unlink hg hcold
      obtain rfl := Except.ok.inj (hu.symm.trans hu')
      exact ⟨hp', hn⟩
    · rintro h ⟨hp, hcold⟩ -
      obtain ⟨fs', hu, -⟩ := hp.unlink hg hcold
      exact ⟨fs', hu⟩
  · rw [if_neg hid]
    exact Triple.pure fun _ _ h => ⟨h.1, fun hs => absurd hs (hcur hid)⟩

/-- From the target on: a restore that fails leaves the link and the cold file; one in which
nothing fails removes the cold file. -/
theorem restore_target_spec {sha256 : Bytes → String} {keep_cold : Bool}
    {E : OSError → Host → Prop} :
    Triple (Safe env h₀ link target i₀) (· = h₀)
      (restore_target sha256 env link target keep_cold)
      (fun ok h => (ok = false ∧ Failed env h₀ link i₀ h) ∨
        (ok = true ∧ Published env h₀ link target i₀ h ∧
          (keep_cold = false → Smooth env h₀ i₀ → h.fs.node target = none))) E := by
  refine Triple.bind (Q := fun tst h =>
    ((∀ st, tst = some st → st.node = .file i₀ ∧ identity st = identity (h₀.fs.fstat i₀)) ∧
      (tst = none → ¬ Smooth env h₀ i₀)) ∧ h = h₀)
    (Triple.attempt ((hg.find (A := (· = h₀)) ?_).conseq (fun _ _ h => h) ?_ ?_)) fun tst =>
      Triple.of_fact fun htst => ?_
  · rintro h rfl
    obtain ⟨st, hst, -, -⟩ := hg.stat_target (FS.SameBut.refl (P := fun _ => False) _) hg.regular
    exact ⟨st, hst⟩
  · rintro st h - ⟨rfl, hst⟩
    obtain ⟨st', hst', hnode, hid⟩ :=
      hg.stat_target (FS.SameBut.refl (P := fun _ => False) _) hg.regular
    obtain rfl := Except.ok.inj (hst.symm.trans hst')
    refine ⟨⟨fun st'' h => ?_, fun hc => absurd hc (by simp)⟩, rfl⟩
    obtain rfl := Option.some_inj.mp h
    exact ⟨hnode, hid⟩
  · rintro e h - ⟨rfl, hs⟩
    exact ⟨⟨fun st h => absurd h (by simp), fun _ => hs⟩, rfl⟩
  cases tst with
  | none =>
    refine Triple.pure ?_
    rintro h - rfl
    exact .inl ⟨rfl, hg.idle_start, htst.2 rfl⟩
  | some tst =>
    obtain ⟨hnode, hid⟩ := htst.1 tst rfl
    show Triple _ _ (if _ then _ else _) _ _
    rw [if_neg (by simp [hnode, Node.isFile])]
    refine Triple.bind (Triple.tryCatch (hg.restore_copy_spec hid) fun e => ?_) fun restored => ?_
    -- whatever the `try` block raises, a call has failed in it, and the answer is `false`
    · exact Triple.bind hg.cleanup_spec fun _ => Triple.pure fun _ _ h => .inl ⟨rfl, h⟩
    cases restored with
    | false =>
      refine Triple.pure ?_
      rintro h - (h' | ⟨hc, -⟩)
      · exact .inl h'
      · exact absurd hc (by simp)
    | true =>
      have hpub : ∀ h, ((true = false ∧ Failed env h₀ link i₀ h) ∨
          (true = true ∧ Published env h₀ link target i₀ h ∧
            h.fs.node target = some (.file i₀))) →
          Published env h₀ link target i₀ h ∧ h.fs.node target = some (.file i₀) := by
        rintro h (⟨hc, -⟩ | ⟨-, h'⟩)
        · exact absurd hc (by simp)
        · exact h'
      cases keep_cold with
      | true => exact Triple.pure fun h _ hh => .inr ⟨rfl, (hpub h hh).1, fun hc => absurd hc (by simp)⟩
      | false =>
        refine Triple.bind ((hg.drop_cold_spec hid).weaken fun h _ hh => hpub h hh) fun _ => ?_
        exact Triple.pure fun h _ hh => .inr ⟨rfl, hh.1, fun _ => hh.2⟩

/-! ### With its checks -/

/-- The checks let the link through, unless a call fails. -/
theorem archive_target_spec {scratch_roots cold_roots : List Path} {pairs : List (Path × Path)}
    (hadm : Admitted h₀.fs link target scratch_roots cold_roots pairs) :
    Triple (Safe env h₀ link target i₀) (· = h₀)
      (archive_target env link scratch_roots cold_roots pairs)
      (fun o h => (o = some target ∨ o = none ∧ ¬ Smooth env h₀ i₀) ∧ h = h₀)
      (fun _ h => h = h₀ ∧ ¬ Smooth env h₀ i₀) := by
  obtain ⟨t, hread, hnode, htarget⟩ := hadm.isLink
  have hcontained : contained h₀.fs link (h₀.fs.realpath (dirname link)) target cold_roots pairs =
      true := by
    rw [contained, hadm.cold, Bool.true_and, Bool.or_eq_true, List.isEmpty_iff, beq_iff_eq]
    exact hadm.pair
  refine Triple.bind (Q := fun is_link h => (is_link = false → ¬ Smooth env h₀ i₀) ∧ h = h₀)
    (Triple.bind (Q := fun st h => (Smooth env h₀ i₀ → ∃ s, st = some s ∧
      s.node.isLink = true) ∧ h = h₀) (Triple.attempt ((hg.find (A := (· = h₀)) ?_).conseq
        (fun _ _ h => h) ?_ ?_)) fun st => Triple.of_fact fun hst => Triple.pure ?_)
    fun is_link => Triple.of_fact fun hlink => ?_
  · rintro h rfl
    refine ⟨⟨.link t, none, 0, 0, ⟨0, 0, 0o777#12⟩, 0, 0, 0⟩, ?_⟩
    rw [FS.lstat, hg.linkAt]
    simp only [bind, Except.bind]
    rw [FS.statAt, hnode]
  · rintro st h - ⟨rfl, hst⟩
    refine ⟨fun _ => ⟨st, rfl, ?_⟩, rfl⟩
    rw [FS.lstat, hg.linkAt] at hst
    have hn := FS.node_of_statAt hst
    rw [hnode, Option.some_inj] at hn
    rw [← hn]
    rfl
  · rintro e h - ⟨rfl, hs⟩
    exact ⟨fun hs' => absurd hs' hs, rfl⟩
  · rintro h - rfl
    refine ⟨fun hno hs => ?_, rfl⟩
    obtain ⟨s, rfl, hs⟩ := hst hs
    rw [Option.map_some, Option.getD_some, hs] at hno
    exact absurd hno (by simp)
  cases is_link with
  | false =>
    refine Triple.pure ?_
    rintro h - rfl
    exact ⟨.inr ⟨rfl, hlink rfl⟩, rfl⟩
  | true =>
    refine Triple.bind (Q := fun link_parent h => link_parent = h₀.fs.realpath (dirname link) ∧
      h = h₀) ?_ fun link_parent => Triple.of_fact ?_
    · rintro tr hI hP
      exact ⟨hI, by rw [hP], hP⟩
    rintro rfl
    show Triple _ _ (if _ then _ else _) _ _
    -- the directory of the link was let through
    rw [if_neg]
    swap
    · rintro ⟨hne, hout⟩
      obtain hnil | hin := hadm.scratch
      · exact hne hnil
      · exact absurd (hin.symm.trans hout) (by simp)
    refine Triple.bind (Q := fun t' h => t' = t ∧ h = h₀)
      ((hg.find (A := (· = h₀)) ?_).conseq (fun _ _ h => h) ?_ fun _ _ _ h => h) fun t' =>
        Triple.of_fact ?_
    · rintro h rfl
      exact ⟨t, hread⟩
    · rintro t' h - ⟨rfl, hr⟩
      exact ⟨Except.ok.inj (hr.symm.trans hread), rfl⟩
    rintro rfl
    refine Triple.bind (Q := fun target' h => target' = target ∧ h = h₀) ?_ fun target' =>
      Triple.of_fact ?_
    · rintro tr hI hP
      exact ⟨hI, by rw [hP, htarget], hP⟩
    rintro rfl
    refine Triple.bind (Q := fun ok h => ok = true ∧ h = h₀) ?_ fun ok => Triple.of_fact ?_
    · rintro tr hI hP
      exact ⟨hI, by rw [hP]; exact hcontained, hP⟩
    rintro rfl
    refine Triple.pure ?_
    rintro h - rfl
    exact ⟨.inl rfl, rfl⟩

/-- One restore: every state is safe, a failed one leaves the link and the cold file, and one in
which nothing fails removes the cold file. -/
theorem restore_one_spec (sha256 : Bytes → String) (keep_cold : Bool)
    {scratch_roots cold_roots : List Path} {pairs : List (Path × Path)}
    (hadm : Admitted h₀.fs link target scratch_roots cold_roots pairs) :
    Triple (Safe env h₀ link target i₀) (· = h₀)
      (restore_one sha256 env link scratch_roots cold_roots pairs keep_cold)
      (fun ok h => (ok = false ∧ Failed env h₀ link i₀ h) ∨
        (ok = true ∧ Published env h₀ link target i₀ h ∧
          (keep_cold = false → Smooth env h₀ i₀ → h.fs.node target = none)))
      (fun _ => Failed env h₀ link i₀) := by
  refine Triple.bind ((hg.archive_target_spec hadm).except ?_) fun o => Triple.of_fact ?_
  · rintro e h - ⟨rfl, hs⟩
    exact ⟨hg.idle_start, hs⟩
  rintro (rfl | ⟨rfl, hs⟩)
  · exact hg.restore_target_spec
  · refine Triple.pure ?_
    rintro h - rfl
    exact .inl ⟨rfl, hg.idle_start, hs⟩

end Granted

end Scratch
