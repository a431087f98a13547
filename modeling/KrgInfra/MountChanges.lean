/-
Which changes of mounted config a reload notices.

A service's fingerprint is the sorted list of what its bind mounts show, without the
targets they are shown at.  So it does not depend on the order of the mounts in the
compose file, and for the same reason an exchange of contents between two targets leaves
it as it was.

* `mem_mounts_changed_iff` — a service is reported exactly when the contents of its mounts,
  counted without their targets, are not the same;
* `mounts_changed_iff` — what it reports is what changed, unless contents have only been
  moved between targets.
-/
import KrgInfra.ComposeReload
import KrgInfra.Dict
import Mathlib.Data.List.Perm.Basic

namespace Compose

/-! ### Sorted lists -/

theorem sorted_perm (l : List String) : (sorted l).Perm l := List.perm_insertionSort _ _

theorem sorted_eq_sorted_iff {l l' : List String} : sorted l = sorted l' ↔ l.Perm l' := by
  constructor
  · intro h
    exact (sorted_perm l).symm.trans (h ▸ sorted_perm l')
  · intro h
    have hperm : (sorted l).Perm (sorted l') := (sorted_perm l).trans (h.trans (sorted_perm l').symm)
    exact hperm.eq_of_pairwise' (List.pairwise_insertionSort _ l) (List.pairwise_insertionSort _ l')

/-! ### What is shown at a target -/

/-- The target and the source of a bind mount that names a source. -/
def Volume.bindMount : Volume → Option (String × String)
  | .short _ => none
  | .long type source target => if type = "bind" ∧ source ≠ "" then some (target, source) else none

/-- The targets of a service's bind mounts, with what is shown there. -/
def Spec.showing (files : Files) (spec : Spec) : List (String × Shown) :=
  (spec.volumes.filterMap Volume.bindMount).map fun m => (m.1, files.shows m.2)

/-- A reading of bind mounts that all lead into the Nix store, no two to one target (compose
merges the entries of a target). -/
structure StoreMounts (files : Files) (spec : Spec) : Prop where
  targets : (Dict.keys (spec.showing files)).Nodup
  store : ∀ source ∈ spec.volumes.filterMap Volume.bindSource,
    files.inStore (files.resolve source) = true

variable {files files' : Files} {spec spec' : Spec}

theorem bindSource_eq (v : Volume) : v.bindSource = v.bindMount.map Prod.snd := by
  cases v with
  | short text => rfl
  | long type source target =>
    rw [Volume.bindSource, Volume.bindMount]
    split_ifs <;> rfl

/-- The fingerprint is taken of what is shown, whatever the target. -/
theorem shown_eq_showing (files : Files) (spec : Spec) :
    spec.shown files = (spec.showing files).map Prod.snd := by
  have hsources : spec.volumes.filterMap Volume.bindSource =
      (spec.volumes.filterMap Volume.bindMount).map Prod.snd := by
    rw [List.map_filterMap]
    exact List.filterMap_congr fun v _ => bindSource_eq v
  rw [Spec.shown, hsources, Spec.showing, List.map_map, List.map_map]
  rfl

/-- Readings that show the same at every target show the same contents. -/
theorem shown_perm_of_lookup (h : (Dict.keys (spec.showing files)).Nodup)
    (h' : (Dict.keys (spec'.showing files')).Nodup)
    (heq : ∀ t, (spec.showing files).lookup t = (spec'.showing files').lookup t) :
    (spec.shown files).Perm (spec'.shown files') := by
  have hmem : ∀ m, m ∈ spec.showing files ↔ m ∈ spec'.showing files' := by
    rintro ⟨t, shown⟩
    constructor
    · intro hm
      exact Dict.mem_of_lookup ((heq t).symm.trans (Dict.lookup_of_mem h hm))
    · intro hm
      exact Dict.mem_of_lookup ((heq t).trans (Dict.lookup_of_mem h' hm))
  have hperm := (List.perm_ext_iff_of_nodup (List.Nodup.of_map _ h) (List.Nodup.of_map _ h')).mpr hmem
  rw [shown_eq_showing, shown_eq_showing]
  exact hperm.map Prod.snd

/-! ### Fingerprints -/

/-- With a hash that tells contents apart, so do the fingerprints of store paths. -/
theorem prints_perm_iff {content_hash : String → String} (hinj : Function.Injective content_hash)
    {l l' : List Shown} (hl : ∀ s ∈ l, ∃ text, s = .content text)
    (hl' : ∀ s ∈ l', ∃ text, s = .content text) :
    (l.map (fingerprint content_hash)).Perm (l'.map (fingerprint content_hash)) ↔ l.Perm l' := by
  have htexts : ∀ l : List Shown, (∀ s ∈ l, ∃ text, s = .content text) →
      ∃ texts : List String, l = texts.map Shown.content := by
    intro l h
    induction l with
    | nil => exact ⟨[], rfl⟩
    | cons s l ih =>
      obtain ⟨text, rfl⟩ := h s List.mem_cons_self
      obtain ⟨texts, rfl⟩ := ih fun s hs => h s (List.mem_cons_of_mem _ hs)
      exact ⟨text :: texts, rfl⟩
  obtain ⟨texts, rfl⟩ := htexts l hl
  obtain ⟨texts', rfl⟩ := htexts l' hl'
  have hprint : Function.Injective (fingerprint content_hash ∘ Shown.content) := by
    intro a b hab
    exact hinj (String.append_right_inj _ |>.mp hab)
  rw [List.map_map, List.map_map, List.map_perm_map_iff hprint,
    List.map_perm_map_iff fun a b h => Shown.content.inj h]

theorem StoreMounts.content (h : StoreMounts files spec) :
    ∀ s ∈ spec.shown files, ∃ text, s = .content text := by
  intro s hs
  obtain ⟨source, hsource, rfl⟩ := List.mem_map.mp hs
  exact ⟨_, if_pos (h.store source hsource)⟩

variable {specs specs' : Specs} {svc : String}

theorem lookup_mount_fingerprints (content_hash : String → String) (files : Files)
    (hspec : specs.lookup svc = some spec) :
    (mount_fingerprints content_hash files specs).lookup svc =
      some (sorted ((spec.shown files).map (fingerprint content_hash))) := by
  induction specs with
  | nil => exact absurd hspec (by simp)
  | cons s specs ih =>
    obtain ⟨other, old⟩ := s
    show List.lookup svc ((other, _) :: mount_fingerprints content_hash files specs) = _
    rw [Dict.lookup_cons] at hspec ⊢
    by_cases heq : svc = other
    · rw [if_pos heq, Option.some_inj] at hspec
      rw [if_pos heq, hspec]
    · rw [if_neg heq] at hspec ⊢
      exact ih hspec

theorem nodup_keys_mount_fingerprints (content_hash : String → String) (files : Files)
    (h : (Dict.keys specs).Nodup) :
    (Dict.keys (mount_fingerprints content_hash files specs)).Nodup := by
  rwa [Dict.keys, mount_fingerprints, List.map_map]

/-- Whatever the order of the mounts: a service is reported exactly when its mounts do not
show the same contents, each as many times. -/
theorem mem_mounts_changed_iff {content_hash : String → String}
    (hinj : Function.Injective content_hash) (hkeys : (Dict.keys specs').Nodup)
    (hspec : specs.lookup svc = some spec) (hspec' : specs'.lookup svc = some spec')
    (hm : StoreMounts files spec) (hm' : StoreMounts files' spec') :
    svc ∈ mounts_changed (some (mount_fingerprints content_hash files specs))
        (mount_fingerprints content_hash files' specs') ↔
      ¬ (spec.shown files).Perm (spec'.shown files') := by
  have hprints := prints_perm_iff hinj hm.content hm'.content
  rw [← hprints, ← sorted_eq_sorted_iff]
  have hprev := lookup_mount_fingerprints content_hash files hspec
  have hcur := Dict.mem_of_lookup (lookup_mount_fingerprints content_hash files' hspec')
  constructor
  · intro h heq
    obtain ⟨s, hs, rfl⟩ := List.mem_map.mp h
    obtain ⟨hs, hne⟩ := List.mem_filter.mp hs
    -- a service is listed once
    have hlookup := Dict.lookup_of_mem (nodup_keys_mount_fingerprints content_hash files' hkeys) hs
    rw [lookup_mount_fingerprints content_hash files' hspec', Option.some_inj] at hlookup
    rw [hprev, Option.any_some, ← hlookup, decide_eq_true_eq] at hne
    exact hne heq
  · intro hne
    refine List.mem_map.mpr ⟨_, List.mem_filter.mpr ⟨hcur, ?_⟩, rfl⟩
    rw [hprev, Option.any_some]
    exact decide_eq_true hne

/-- `mounts_changed` reports a service exactly when what is shown at some target has
changed, unless contents have only been moved between its targets. -/
theorem mounts_changed_iff {content_hash : String → String}
    (hinj : Function.Injective content_hash) (hkeys : (Dict.keys specs').Nodup)
    (hspec : specs.lookup svc = some spec) (hspec' : specs'.lookup svc = some spec')
    (hm : StoreMounts files spec) (hm' : StoreMounts files' spec') :
    ((∃ t, (spec.showing files).lookup t ≠ (spec'.showing files').lookup t) ↔
        svc ∈ mounts_changed (some (mount_fingerprints content_hash files specs))
          (mount_fingerprints content_hash files' specs')) ↔
      (∀ t, (spec.showing files).lookup t = (spec'.showing files').lookup t) ∨
        ¬ (spec.shown files).Perm (spec'.shown files') := by
  rw [mem_mounts_changed_iff hinj hkeys hspec hspec' hm hm']
  constructor
  · intro h
    by_cases hsame : ∀ t, (spec.showing files).lookup t = (spec'.showing files').lookup t
    · exact .inl hsame
    · exact .inr (h.mp (not_forall.mp hsame))
  · rintro (hsame | hperm)
    · refine ⟨fun ⟨t, ht⟩ => absurd (hsame t) ht, fun hperm => ?_⟩
      exact absurd (shown_perm_of_lookup hm.targets hm'.targets hsame) hperm
    · refine ⟨fun _ => hperm, fun _ => ?_⟩
      by_contra hsame
      exact hperm (shown_perm_of_lookup hm.targets hm'.targets fun t =>
        by_contra fun ht => hsame ⟨t, ht⟩)

/-- A service with two files of the store mounted. -/
def twoMounts : Spec where
  volumes := [.long "bind" "/one" "/etc/one", .long "bind" "/two" "/etc/two"]

/-- The two files, with these contents. -/
def twoFiles (one two : String) : Files where
  resolve source := "/nix/store" ++ source
  content path :=
    if path = "/nix/store/one" then some one
    else if path = "/nix/store/two" then some two
    else none

theorem storeMounts_twoMounts (one two : String) : StoreMounts (twoFiles one two) twoMounts where
  targets := by
    show ["/etc/one", "/etc/two"].Nodup
    decide
  store := by
    intro source hsource
    have hcase : source = "/one" ∨ source = "/two" := by
      replace hsource : source ∈ ["/one", "/two"] := hsource
      simpa using hsource
    have hpath : STORE.toList.isPrefixOf ("/nix/store" ++ source).toList = true := by
      rcases hcase with rfl | rfl <;> decide
    have hthere : ((twoFiles one two).content ("/nix/store" ++ source)).isSome = true := by
      rcases hcase with rfl | rfl <;> simp [twoFiles]
    exact Bool.and_eq_true_iff.mpr ⟨hpath, hthere⟩

theorem mounts_changed_iff_edited :
    ((∃ t, (twoMounts.showing (twoFiles "a" "b")).lookup t ≠
          (twoMounts.showing (twoFiles "a" "c")).lookup t) ↔
        "web" ∈ mounts_changed
          (some (mount_fingerprints id (twoFiles "a" "b") [("web", twoMounts)]))
          (mount_fingerprints id (twoFiles "a" "c") [("web", twoMounts)])) ↔
      (∀ t, (twoMounts.showing (twoFiles "a" "b")).lookup t =
          (twoMounts.showing (twoFiles "a" "c")).lookup t) ∨
        ¬ (twoMounts.shown (twoFiles "a" "b")).Perm (twoMounts.shown (twoFiles "a" "c")) :=
  mounts_changed_iff Function.injective_id (List.nodup_singleton _) rfl rfl
    (storeMounts_twoMounts _ _) (storeMounts_twoMounts _ _)

/-- The two files exchange their contents, and nothing is reported. -/
theorem exchanged_unnoticed :
    StoreMounts (twoFiles "a" "b") twoMounts ∧ StoreMounts (twoFiles "b" "a") twoMounts ∧
      (twoMounts.showing (twoFiles "a" "b")).lookup "/etc/one" = some (.content "a") ∧
      (twoMounts.showing (twoFiles "b" "a")).lookup "/etc/one" = some (.content "b") ∧
      mounts_changed (some (mount_fingerprints id (twoFiles "a" "b") [("web", twoMounts)]))
        (mount_fingerprints id (twoFiles "b" "a") [("web", twoMounts)]) = [] :=
  ⟨storeMounts_twoMounts _ _, storeMounts_twoMounts _ _, by decide +kernel, by decide +kernel,
    by decide +kernel⟩

end Compose
