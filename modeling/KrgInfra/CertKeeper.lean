/-
The keeper among the certificates of one name.

Sorting is stable, so that of two certificates that rank alike the one that DSM lists last is
kept: the keeper does not depend on the order of the list exactly where one certificate alone
ranks highest.  Where a certificate with the wanted names will last, no other is issued: one that
ranks at least as high has the names and lasts as long.

* `sortByKey_concat`, `le_last_sortByKey` — the last of a list that is sorted by a key;
* `Top`, `select_eq` — the certificates that rank highest, and which of them is kept;
* `sameKeeper_iff` — when the commands keep one certificate in every order of the list;
* `same_second` — two certificates that expire in the same second;
* `Box`, `History` — the plays on a box whose certificates become more;
* `no_reissue_loop` — a certificate is issued only where none will last.
-/
import KrgInfra.Certificates

/-! ### Sorting by a key -/

section SortByKey

variable {α β : Type} [LinearOrder β] (key : α → β)

/-- `sorted(l, key=key)` -/
def sortByKey (l : List α) : List α := l.insertionSort fun a b => key a ≤ key b

/-- What ranks as high as everything before it stays last. -/
theorem sortByKey_concat {l : List α} {c : α} (h : ∀ a ∈ l, key a ≤ key c) :
    sortByKey key (l ++ [c]) = sortByKey key l ++ [c] := by
  have hinsert : ∀ (s : List α) (a : α), key a ≤ key c →
      (s ++ [c]).orderedInsert (fun a b => key a ≤ key b) a =
        s.orderedInsert (fun a b => key a ≤ key b) a ++ [c] := by
    intro s a ha
    induction s with
    | nil => exact List.orderedInsert_cons_of_le _ _ ha
    | cons b s ih =>
      rw [List.cons_append, List.orderedInsert_cons, List.orderedInsert_cons]
      split_ifs
      · rfl
      · rw [ih, List.cons_append]
  induction l with
  | nil => rfl
  | cons a l ih =>
    show List.orderedInsert _ a (sortByKey key (l ++ [c])) = _
    rw [ih fun b hb => h b (List.mem_cons_of_mem a hb), hinsert _ _ (h a List.mem_cons_self)]
    rfl

/-- The last one is one of the list, and ranks highest. -/
theorem le_last_sortByKey {l : List α} {c : α} (h : (sortByKey key l).getLast? = some c) :
    c ∈ l ∧ ∀ a ∈ l, key a ≤ key c := by
  have : IsTrans α fun a b => key a ≤ key b := ⟨fun _ _ _ => le_trans⟩
  have : Std.Total fun a b => key a ≤ key b := ⟨fun _ _ => le_total _ _⟩
  obtain ⟨s, hs⟩ := List.getLast?_eq_some_iff.mp h
  have hmem : ∀ a, a ∈ s ++ [c] ↔ a ∈ l := fun a => hs ▸ List.mem_insertionSort _
  have hsorted : (s ++ [c]).Pairwise fun a b => key a ≤ key b :=
    hs ▸ List.pairwise_insertionSort (fun a b => key a ≤ key b) l
  refine ⟨(hmem c).mp (by simp), fun a ha => ?_⟩
  obtain ha | ha := List.mem_append.mp ((hmem a).mpr ha)
  · exact (List.pairwise_append.mp hsorted).2.2 a ha c (List.mem_singleton_self c)
  · exact le_of_eq (congrArg key (List.mem_singleton.mp ha))

theorem exists_last_sortByKey {l : List α} (h : l ≠ []) :
    ∃ c, (sortByKey key l).getLast? = some c := by
  refine ⟨_, List.getLast?_eq_some_getLast fun hnil => h ?_⟩
  have hlength := List.length_insertionSort (fun a b => key a ≤ key b) l
  rw [show l.insertionSort (fun a b => key a ≤ key b) = [] from hnil] at hlength
  exact List.length_eq_zero_iff.mp hlength.symm

end SortByKey

namespace Certificates

open Python

variable {u : Unicode} {pems : Pems} {want : Finset String} {certs : List Cert} {domain : String}

/-! ### Which certificate is kept -/

/-- A certificate of the domain that ranks highest. -/
def Top (u : Unicode) (pems : Pems) (want : Finset String) (certs : List Cert) (domain : String)
    (c : Cert) : Prop :=
  c ∈ matching certs domain ∧ ∀ d ∈ matching certs domain, rank u pems want d ≤ rank u pems want c

theorem mem_matching {c : Cert} :
    c ∈ matching certs domain ↔ c ∈ certs ∧ c.common_name = some domain := by
  rw [matching, List.mem_filter, domain_matches, decide_eq_true_iff]

theorem matching_perm {certs' : List Cert} (h : certs'.Perm certs) (domain : String) :
    (matching certs' domain).Perm (matching certs domain) := h.filter _

theorem top_of_perm {certs' : List Cert} (h : certs'.Perm certs) {c : Cert}
    (hc : Top u pems want certs' domain c) : Top u pems want certs domain c := by
  have hperm := matching_perm h domain
  exact ⟨hperm.mem_iff.mp hc.1, fun d hd => hc.2 d (hperm.mem_iff.mpr hd)⟩

theorem listOf_strs (l : List String) : listOf (.arr (l.map .str)) = some l := by
  rw [listOf]
  induction l with
  | nil => rfl
  | cons s l ih =>
    rw [List.map_cons, List.mapM_cons, ih]
    rfl

/-- The names that are wanted of a domain and a list of texts. -/
theorem wanted_names_arr (u : Unicode) (domain : String) (sans : List String)
    (policy : OnDuplicate) :
    wanted_names u ⟨domain, .arr (sans.map .str), policy⟩ = some (nameSet u (domain :: sans)) := by
  rw [wanted_names, listOf_strs]
  rfl

theorem nameSet_ne_empty (u : Unicode) (name : String) (names : List String) :
    nameSet u (name :: names) ≠ ∅ := by
  rw [nameSet, List.map_cons, List.toFinset_cons]
  exact Finset.insert_ne_empty _ _

/-- Whether the policy lets a command choose among these. -/
def Chooses (policy : OnDuplicate) (l : List Cert) : Prop := policy = .fail → l.length ≤ 1

/-- A command that may choose keeps the last of the certificates sorted by rank. -/
theorem select_eq {t : Target} (hwant : wanted_names u t = some want)
    (h : Chooses t.on_duplicate (matching certs t.domain)) :
    select u pems t certs =
      .keeper (sortByKey (rank u pems want) (matching certs t.domain)).getLast? := by
  simp only [select, hwant, resolve_domain, find_by_domain_all]
  generalize matching certs t.domain = l at h ⊢
  match l with
  | [] => rfl
  | [c] => rfl
  | c :: d :: more =>
    cases hpolicy : t.on_duplicate with
    | newest => rfl
    | fail =>
      have hlength : (c :: d :: more).length ≤ 1 := h hpolicy
      simp only [List.length_cons] at hlength
      omega

/-- One that may not chooses none. -/
theorem chooses_of_select {t : Target} {keeper : Option Cert}
    (h : select u pems t certs = .keeper keeper) :
    Chooses t.on_duplicate (matching certs t.domain) := by
  intro hpolicy
  by_contra hlength
  rw [select] at h
  cases hwant : wanted_names u t with
  | none =>
    rw [hwant] at h
    exact nomatch h
  | some want =>
    simp only [hwant, resolve_domain, find_by_domain_all] at h
    generalize matching certs t.domain = l at h hlength
    match l with
    | [] => exact hlength (Nat.zero_le 1)
    | [c] => exact hlength le_rfl
    | c :: d :: more =>
      rw [hpolicy] at h
      exact nomatch h

/-- What is kept ranks highest. -/
theorem top_of_select {t : Target} (hwant : wanted_names u t = some want) {c : Cert}
    (h : select u pems t certs = .keeper (some c)) : Top u pems want certs t.domain c := by
  rw [select_eq hwant (chooses_of_select h)] at h
  exact le_last_sortByKey _ (Selection.keeper.inj h)

/-- Nothing is kept only where nothing is there. -/
theorem matching_of_select_none {t : Target} (hwant : wanted_names u t = some want)
    (h : select u pems t certs = .keeper none) : matching certs t.domain = [] := by
  by_contra hne
  obtain ⟨c, hc⟩ := exists_last_sortByKey (rank u pems want) hne
  rw [select_eq hwant (chooses_of_select h), hc] at h
  exact nomatch h

/-- A certificate that ranks highest is kept where it is listed last. -/
theorem select_concat {t : Target} (hwant : wanted_names u t = some want) {c : Cert}
    {others : List Cert} (hperm : (others ++ [c]).Perm certs)
    (hc : Top u pems want certs t.domain c)
    (h : Chooses t.on_duplicate (matching certs t.domain)) :
    select u pems t (others ++ [c]) = .keeper (some c) := by
  have hmatching : matching (others ++ [c]) t.domain = matching others t.domain ++ [c] := by
    have hdomain : domain_matches c t.domain = true := (List.mem_filter.mp hc.1).2
    show List.filter _ (others ++ [c]) = _
    rw [List.filter_append]
    exact congrArg _ (List.filter_cons_of_pos hdomain)
  have hp := matching_perm hperm t.domain
  have hchooses : Chooses t.on_duplicate (matching (others ++ [c]) t.domain) :=
    fun hpolicy => hp.length_eq ▸ h hpolicy
  rw [select_eq hwant hchooses, hmatching, sortByKey_concat, List.getLast?_concat]
  intro a ha
  refine hc.2 a (hp.mem_iff.mp ?_)
  rw [hmatching]
  exact List.mem_append_left _ ha

/-! ### The same keeper -/

/-- When a certificate expires, as it is ranked: without a date that can be read, first of all. -/
def expiry (u : Unicode) (c : Cert) : ℕ := (parse_valid_till u c.valid_till).getD 0

/-- The keeper as it is described: a certificate with the wanted names that expires last, or,
where none has the names, one that expires last. -/
def IsKeeper (u : Unicode) (pems : Pems) (want : Finset String) (certs : List Cert)
    (domain : String) : Option Cert → Prop
  | none => ∀ c ∈ certs, c.common_name ≠ some domain
  | some k =>
    (k ∈ certs ∧ k.common_name = some domain) ∧
      if ∃ c ∈ certs, c.common_name = some domain ∧ cert_sans u pems c.id = some want then
        cert_sans u pems k.id = some want ∧
          ∀ c ∈ certs, c.common_name = some domain → cert_sans u pems c.id = some want →
            expiry u c ≤ expiry u k
      else ∀ c ∈ certs, c.common_name = some domain → expiry u c ≤ expiry u k

theorem rank_le_iff (hwant : want ≠ ∅) {c k : Cert} :
    rank u pems want c ≤ rank u pems want k ↔
      (cert_sans u pems c.id ≠ some want ∧ cert_sans u pems k.id = some want) ∨
      ((cert_sans u pems c.id = some want ↔ cert_sans u pems k.id = some want) ∧
        expiry u c ≤ expiry u k) := by
  rw [rank, rank, if_neg hwant, if_neg hwant, Prod.Lex.le_iff]
  show (decide _ < decide _ ∨ decide _ = decide _ ∧ expiry u c ≤ expiry u k) ↔ _
  by_cases hc : cert_sans u pems c.id = some want <;>
    by_cases hk : cert_sans u pems k.id = some want <;> simp [hc, hk]

/-- The certificates that rank highest are those described. -/
theorem isKeeper_of_top (hwant : want ≠ ∅) {k : Cert} (h : Top u pems want certs domain k) :
    IsKeeper u pems want certs domain (some k) := by
  refine ⟨mem_matching.mp h.1, ?_⟩
  have hle : ∀ c ∈ certs, c.common_name = some domain →
      rank u pems want c ≤ rank u pems want k :=
    fun c hc hdomain => h.2 c (mem_matching.mpr ⟨hc, hdomain⟩)
  split_ifs with hsome
  · obtain ⟨c, hc, hdomain, hsans⟩ := hsome
    have hk : cert_sans u pems k.id = some want := by
      obtain ⟨_, hk⟩ | ⟨hiff, _⟩ := (rank_le_iff hwant).mp (hle c hc hdomain)
      · exact hk
      · exact hiff.mp hsans
    refine ⟨hk, fun d hd hdomain hdsans => ?_⟩
    obtain ⟨hno, _⟩ | ⟨_, hexpiry⟩ := (rank_le_iff hwant).mp (hle d hd hdomain)
    · exact absurd hdsans hno
    · exact hexpiry
  · intro c hc hdomain
    obtain ⟨_, hk⟩ | ⟨_, hexpiry⟩ := (rank_le_iff hwant).mp (hle c hc hdomain)
    · exact absurd ⟨k, (mem_matching.mp h.1).1, (mem_matching.mp h.1).2, hk⟩ hsome
    · exact hexpiry

/-- In every order of the certificates all commands go on with one keeper, the one described. -/
def SameKeeper (u : Unicode) (pems : Pems) (domain : String) (sans : List String)
    (policy : OnDuplicate) (certs : List Cert) : Prop :=
  let t : Target := ⟨domain, .arr (sans.map .str), policy⟩
  ∃ keeper, IsKeeper u pems (nameSet u (domain :: sans)) certs domain keeper ∧
    ∀ certs' : List Cert, certs'.Perm certs →
      select u pems t certs' = .keeper keeper ∧
      (∀ (now : ℕ) (a : CreateArgs) (reply : Option Bool), a.toTarget = t →
        do_letsencrypt_create u pems now a (some certs') reply =
          create_with u pems now a sans keeper reply) ∧
      (∀ (a : DefaultArgs) (reply : Option Bool), a.toTarget = t →
        do_set_default u pems a (some certs') reply = default_with a keeper reply) ∧
      ∀ (a : BindArgs) (bindings : List (Option (String × String))) (reply : Option Bool),
        a.toTarget = t → a.bindings = some bindings →
          do_bind_services u pems a (some certs') reply =
            bind_with u pems a bindings certs' keeper reply

/-- The commands go on with what they select. -/
theorem commands_of_select {t : Target} {keeper : Option Cert} {sans : List String}
    (hsans : textList t.sans = some sans) (h : select u pems t certs = .keeper keeper) :
    (∀ (now : ℕ) (a : CreateArgs) (reply : Option Bool), a.toTarget = t →
      do_letsencrypt_create u pems now a (some certs) reply =
        create_with u pems now a sans keeper reply) ∧
    (∀ (a : DefaultArgs) (reply : Option Bool), a.toTarget = t →
      do_set_default u pems a (some certs) reply = default_with a keeper reply) ∧
    ∀ (a : BindArgs) (bindings : List (Option (String × String))) (reply : Option Bool),
      a.toTarget = t → a.bindings = some bindings →
        do_bind_services u pems a (some certs) reply =
          bind_with u pems a bindings certs keeper reply := by
  refine ⟨fun now a reply ha => ?_, fun a reply ha => ?_, fun a bindings reply ha hb => ?_⟩
  · subst ha
    simp only [do_letsencrypt_create, hsans, h]
  · subst ha
    simp only [do_set_default, h]
  · subst ha
    simp only [do_bind_services, hb, h]

/-- Where the keeper is the same in every order, one certificate alone ranks highest: any that does
is kept where it is listed last. -/
theorem unique_of_sameKeeper {sans : List String} {policy : OnDuplicate}
    (h : SameKeeper u pems domain sans policy certs) {c d : Cert}
    (hc : Top u pems (nameSet u (domain :: sans)) certs domain c)
    (hd : Top u pems (nameSet u (domain :: sans)) certs domain d) : c = d := by
  obtain ⟨keeper, _, h⟩ := h
  have hchooses := chooses_of_select (h certs (.refl certs)).1
  have hkept : ∀ c, Top u pems (nameSet u (domain :: sans)) certs domain c →
      keeper = some c := by
    intro c hc
    have hperm : (certs.erase c ++ [c]).Perm certs :=
      List.perm_append_comm.trans (List.perm_cons_erase (mem_matching.mp hc.1).1).symm
    have hselect := select_concat (wanted_names_arr u domain sans policy) hperm hc hchooses
    exact Selection.keeper.inj ((h _ hperm).1.symm.trans hselect)
  exact Option.some.inj ((hkept c hc).symm.trans (hkept d hd))

/-- The commands keep one certificate in every order of the list exactly where they may choose,
and no two different certificates rank highest. -/
theorem sameKeeper_iff (u : Unicode) (pems : Pems) (domain : String) (sans : List String)
    (policy : OnDuplicate) (certs : List Cert) :
    SameKeeper u pems domain sans policy certs ↔
      Chooses policy (matching certs domain) ∧
      ∀ c d, Top u pems (nameSet u (domain :: sans)) certs domain c →
        Top u pems (nameSet u (domain :: sans)) certs domain d → c = d := by
  constructor
  · intro h
    obtain ⟨_, _, hselect⟩ := id h
    exact ⟨chooses_of_select (hselect certs (.refl certs)).1,
      fun c d hc hd => unique_of_sameKeeper h hc hd⟩
  · rintro ⟨hchooses, hunique⟩
    have hwant := wanted_names_arr u domain sans policy
    have hall : ∀ certs' : List Cert, certs'.Perm certs →
        Chooses policy (matching certs' domain) :=
      fun certs' hperm hpolicy => (matching_perm hperm domain).length_eq ▸ hchooses hpolicy
    have hsans : textList (.arr (sans.map .str)) = some sans := listOf_strs sans
    by_cases hnone : matching certs domain = []
    · refine ⟨none, fun c hc hdomain => ?_, fun certs' hperm => ?_⟩
      · have hmem := mem_matching.mpr ⟨hc, hdomain⟩
        rw [hnone] at hmem
        exact nomatch hmem
      · have hselect := @select_eq u pems _ certs' _ hwant (hall certs' hperm)
        have hnone' : matching certs' domain = [] :=
          List.perm_nil.mp (hnone ▸ matching_perm hperm domain)
        rw [hnone'] at hselect
        exact ⟨hselect, commands_of_select hsans hselect⟩
    · obtain ⟨k, hk⟩ := exists_last_sortByKey (rank u pems (nameSet u (domain :: sans))) hnone
      have htop : Top u pems (nameSet u (domain :: sans)) certs domain k :=
        le_last_sortByKey _ hk
      have hkeeper := isKeeper_of_top (nameSet_ne_empty u domain sans) htop
      refine ⟨some k, hkeeper, fun certs' hperm => ?_⟩
      have hnone' : matching certs' domain ≠ [] :=
        fun h => hnone (List.perm_nil.mp (h ▸ (matching_perm hperm domain).symm))
      obtain ⟨k', hk'⟩ := exists_last_sortByKey (rank u pems (nameSet u (domain :: sans))) hnone'
      have hselect := @select_eq u pems _ certs' _ hwant (hall certs' hperm)
      have heq : k' = k := hunique k' k (top_of_perm hperm (le_last_sortByKey _ hk')) htop
      rw [hk', heq] at hselect
      exact ⟨hselect, commands_of_select hsans hselect⟩

/-- The tables for ASCII. -/
def ascii : Unicode :=
  ⟨fun s => s.toLower, fun c => if c.isDigit then some (c.toNat - 48) else none,
    fun s => "'" ++ s ++ "'"⟩

/-- A certificate of the NAS. -/
def nasCert (id : String) : Cert :=
  ⟨some id, some "e4e-nas.ucsd.edu", some "Nov  2 04:05:39 2026 GMT", false, []⟩

/-- Two certificates that expire in the same second, and whose names cannot be read: the one that
is listed last is kept. -/
theorem same_second :
    ¬ SameKeeper ascii (fun _ => none) "e4e-nas.ucsd.edu" [] .newest
      [nasCert "d6mvd5", nasCert "GVDT4N"] := by
  intro h
  have hrank : ∀ i j : String,
      rank ascii (fun _ => none) (nameSet ascii ["e4e-nas.ucsd.edu"]) (nasCert i) =
        rank ascii (fun _ => none) (nameSet ascii ["e4e-nas.ucsd.edu"]) (nasCert j) := by
    intro i j
    have hsans : ∀ i, cert_sans ascii (fun _ => none) (nasCert i).id = none := by
      intro i
      simp [nasCert, cert_sans]
    rw [rank, rank, hsans, hsans]
    rfl
  have htop : ∀ i ∈ ["d6mvd5", "GVDT4N"], Top ascii (fun _ => none)
      (nameSet ascii ["e4e-nas.ucsd.edu"]) [nasCert "d6mvd5", nasCert "GVDT4N"]
      "e4e-nas.ucsd.edu" (nasCert i) := by
    intro i hi
    have hmem : ∀ c ∈ [nasCert "d6mvd5", nasCert "GVDT4N"], ∃ j, c = nasCert j := by
      simp
    refine ⟨mem_matching.mpr ⟨List.mem_map_of_mem (f := nasCert) hi, rfl⟩, fun d hd => ?_⟩
    obtain ⟨j, rfl⟩ := hmem d (mem_matching.mp hd).1
    exact le_of_eq (hrank j i)
  have heq := unique_of_sameKeeper h (htop "d6mvd5" (by simp)) (htop "GVDT4N" (by simp))
  simp [nasCert] at heq

/-! ### Issuing -/

/-- A certificate that needs no other: its names are those that are wanted, and it expires later
than the renewal buffer from now. -/
structure Lasting (u : Unicode) (pems : Pems) (want : Finset String) (domain : String) (now : ℕ)
    (buffer_days : ℤ) (c : Cert) : Prop where
  domain : c.common_name = some domain
  names : cert_sans u pems c.id = some want
  lasts : ∃ limit v : ℕ, (limit : ℤ) = now + buffer_days * day ∧
    parse_valid_till u c.valid_till = some v ∧ limit < v

/-- What ranks as high as a lasting certificate is not issued again. -/
theorem reissue_of_le (hwant : want ≠ ∅) {now : ℕ} {buffer_days : ℤ} {c k : Cert}
    (hc : Lasting u pems want domain now buffer_days c)
    (hle : rank u pems want c ≤ rank u pems want k) :
    reissue u pems now buffer_days want (some k) = none := by
  obtain ⟨hk, hexpiry⟩ : cert_sans u pems k.id = some want ∧ expiry u c ≤ expiry u k := by
    obtain ⟨hno, _⟩ | ⟨hiff, hexpiry⟩ := (rank_le_iff hwant).mp hle
    · exact absurd hc.names hno
    · exact ⟨hiff.mp hc.names, hexpiry⟩
  obtain ⟨limit, v, hlimit, hv, hlt⟩ := hc.lasts
  have hexpires : limit < expiry u k := by
    have hv' : expiry u c = v := by rw [expiry, hv]; rfl
    omega
  cases hparse : parse_valid_till u k.valid_till with
  | none =>
    -- a date that cannot be read is none that is later than another
    rw [expiry, hparse] at hexpires
    exact absurd hexpires (Nat.not_lt_zero limit)
  | some w =>
    have hw : limit < w := by rw [expiry, hparse] at hexpires; exact hexpires
    have hmore : (w : ℤ) - now > buffer_days * day := by omega
    simp only [reissue, hk, hparse, ne_eq, not_true_eq_false, if_false, if_pos hmore]

/-- The request of a command, where there is one, is sent for a keeper that is issued again. -/
theorem reissue_of_requests {now : ℕ} {a : CreateArgs} {listing : Option (List Cert)}
    {reply : Option Bool}
    (h : (do_letsencrypt_create u pems now a listing reply).requests ≠ []) :
    ∃ certs sans keeper, listing = some certs ∧ textList a.sans = some sans ∧
      select u pems a.toTarget certs = .keeper keeper ∧
      reissue u pems now a.renewal_buffer_days (nameSet u (a.domain :: sans)) keeper ≠ none := by
  cases listing with
  | none => exact absurd rfl h
  | some certs =>
    cases hsans : textList a.sans with
    | none =>
      simp only [do_letsencrypt_create, hsans] at h
      exact absurd rfl h
    | some sans =>
      cases hselect : select u pems a.toTarget certs with
      | raised =>
        simp only [do_letsencrypt_create, hsans, hselect] at h
        exact absurd rfl h
      | ambiguous ids =>
        simp only [do_letsencrypt_create, hsans, hselect] at h
        exact absurd rfl h
      | keeper keeper =>
        refine ⟨certs, sans, keeper, rfl, rfl, hselect, fun hnone => ?_⟩
        simp only [do_letsencrypt_create, hsans, hselect, create_with, hnone] at h
        split_ifs at h
        · exact h rfl
        · exact h rfl

/-- The names that a command wants, where its SANs are a list of texts. -/
theorem wanted_of_textList {t : Target} {sans : List String} (h : textList t.sans = some sans) :
    wanted_names u t = some (nameSet u (t.domain :: sans)) := by
  have hlist : listOf t.sans = some sans := by
    cases hs : t.sans with
    | arr items => rwa [hs] at h
    | null => rw [hs] at h; exact nomatch h
    | bool b => rw [hs] at h; exact nomatch h
    | int n => rw [hs] at h; exact nomatch h
    | float q => rw [hs] at h; exact nomatch h
    | str s => rw [hs] at h; exact nomatch h
    | obj members => rw [hs] at h; exact nomatch h
  rw [wanted_names, hlist]
  rfl

/-- Where a certificate will last, none is issued. -/
theorem not_issued_of_lasting {now : ℕ} {a : CreateArgs} {reply : Option Bool}
    (hwant : wanted_names u a.toTarget = some want) {c : Cert} (hc : c ∈ certs)
    (hlasting : Lasting u pems want a.domain now a.renewal_buffer_days c) :
    (do_letsencrypt_create u pems now a (some certs) reply).requests = [] := by
  by_contra hrequests
  obtain ⟨_, sans, keeper, hlisting, hsans, hselect, hreissue⟩ := reissue_of_requests hrequests
  obtain rfl := Option.some.inj hlisting
  have hnames := wanted_of_textList (u := u) hsans
  obtain rfl := Option.some.inj (hwant.symm.trans hnames)
  have hmem : c ∈ matching certs a.domain := mem_matching.mpr ⟨hc, hlasting.domain⟩
  cases keeper with
  | none =>
    rw [matching_of_select_none hwant hselect] at hmem
    exact nomatch hmem
  | some k =>
    have htop := top_of_select hwant hselect
    exact hreissue (reissue_of_le (nameSet_ne_empty u a.domain sans) hlasting (htop.2 c hmem))

/-! ### Plays -/

/-- The certificates of DSM, their PEMs, and the time. -/
structure Box where
  pems : Pems
  certs : List Cert
  now : ℕ

/-- What may happen: time passes, and DSM mints certificates, in any order; those that are there
keep their id, their names and their date, and may become the default, or lose a service. -/
structure Grows (b b' : Box) : Prop where
  later : b.now ≤ b'.now
  kept : ∀ c ∈ b.certs, ∃ c' ∈ b'.certs, c'.id = c.id ∧ c'.common_name = c.common_name ∧
    c'.valid_till = c.valid_till
  pems : ∀ c ∈ b.certs, ∀ i, c.id = some i → b'.pems i = b.pems i

theorem Grows.refl (b : Box) : Grows b b :=
  ⟨le_rfl, fun c hc => ⟨c, hc, rfl, rfl, rfl⟩, fun _ _ _ _ => rfl⟩

theorem Grows.trans {b₁ b₂ b₃ : Box} (h : Grows b₁ b₂) (h' : Grows b₂ b₃) : Grows b₁ b₃ := by
  refine ⟨h.later.trans h'.later, fun c hc => ?_, fun c hc i hi => ?_⟩
  · obtain ⟨c', hc', hid, hcn, hvt⟩ := h.kept c hc
    obtain ⟨c'', hc'', hid', hcn', hvt'⟩ := h'.kept c' hc'
    exact ⟨c'', hc'', hid'.trans hid, hcn'.trans hcn, hvt'.trans hvt⟩
  · obtain ⟨c', hc', hid, _, _⟩ := h.kept c hc
    rw [h'.pems c' hc' i (hid.trans hi), h.pems c hc i hi]

/-- One run of `letsencrypt-create`: what it finds, whether the list is read, what DSM answers to a
request, and what is there when it ends. -/
structure Play where
  before : Box
  listed : Bool
  args : CreateArgs
  reply : Option Bool
  after : Box

def Play.ran (u : Unicode) (p : Play) : Ran Create :=
  do_letsencrypt_create u p.before.pems p.before.now p.args
    (if p.listed then some p.before.certs else none) p.reply

/-- Some plays, the last one first, and the box after them. -/
inductive History : List Play → Box → Prop where
  | start (b : Box) : History [] b
  | grow {plays : List Play} {b b' : Box} : History plays b → Grows b b' → History plays b'
  | play {plays : List Play} (p : Play) :
    History plays p.before → Grows p.before p.after → History (p :: plays) p.after

/-- What a play left is still there later on. -/
theorem History.grows {later earlier : List Play} {p : Play} {b : Box}
    (h : History (later ++ p :: earlier) b) :
    Grows p.after b ∧ ∀ q ∈ later, Grows p.after q.before := by
  generalize hplays : later ++ p :: earlier = plays at h
  induction h generalizing later with
  | start b => exact absurd hplays (by simp)
  | grow _ hgrows ih =>
    obtain ⟨hafter, hlater⟩ := ih hplays
    exact ⟨hafter.trans hgrows, hlater⟩
  | @play plays q _ hgrows ih =>
    cases later with
    | nil =>
      obtain ⟨rfl, _⟩ := List.cons.inj hplays
      exact ⟨.refl _, fun _ h => nomatch h⟩
    | cons q' later =>
      obtain ⟨rfl, hrest⟩ := List.cons.inj hplays
      obtain ⟨hbefore, hlater⟩ := ih hrest
      refine ⟨hbefore.trans hgrows, fun r hr => ?_⟩
      obtain rfl | hr := List.mem_cons.mp hr
      · exact hbefore
      · exact hlater r hr

/-- A certificate that is kept is read as before. -/
theorem Grows.cert_sans {b b' : Box} (h : Grows b b') {c : Cert} (hc : c ∈ b.certs) :
    cert_sans u b'.pems c.id = cert_sans u b.pems c.id := by
  cases hi : c.id with
  | none => rfl
  | some i => rw [Certificates.cert_sans, Certificates.cert_sans, h.pems c hc i hi]

/-- In every history of plays a certificate is issued only where none of the domain will last; and
once one is issued that carries the names, none is issued again before it comes within the
buffer. -/
theorem no_reissue_loop {plays : List Play} {b : Box} (h : History plays b) :
    (∀ p ∈ plays, ∀ want, wanted_names u p.args.toTarget = some want →
      (p.ran u).requests ≠ [] → ∀ c ∈ p.before.certs,
        ¬ Lasting u p.before.pems want p.args.domain p.before.now p.args.renewal_buffer_days c) ∧
    ∀ later p earlier, plays = later ++ p :: earlier → (p.ran u).outcome = .changed →
      ∀ want, wanted_names u p.args.toTarget = some want →
      ∀ c ∈ p.after.certs, c.common_name = some p.args.domain →
        cert_sans u p.after.pems c.id = some want →
      ∀ v, parse_valid_till u c.valid_till = some v →
      ∀ q ∈ later, q.args.domain = p.args.domain → wanted_names u q.args.toTarget = some want →
      ∀ limit : ℕ, (limit : ℤ) = q.before.now + q.args.renewal_buffer_days * day → limit < v →
        (q.ran u).requests = [] := by
  have hissue : ∀ (p : Play) want, wanted_names u p.args.toTarget = some want →
      ∀ c ∈ p.before.certs, Lasting u p.before.pems want p.args.domain p.before.now
        p.args.renewal_buffer_days c → (p.ran u).requests = [] := by
    intro p want hwant c hc hlasting
    rw [Play.ran]
    cases p.listed with
    | false => rfl
    | true => exact not_issued_of_lasting hwant hc hlasting
  constructor
  · intro p _ want hwant hrequests c hc hlasting
    exact hrequests (hissue p want hwant c hc hlasting)
  · rintro later p earlier rfl _ want _ c hc hdomain hsans v hv q hq hqdomain hqwant limit hlimit
      hlt
    have hgrows := h.grows.2 q hq
    obtain ⟨c', hc', hid, hcn, hvt⟩ := hgrows.kept c hc
    refine hissue q want hqwant c' hc' ⟨?_, ?_, limit, v, hlimit, hvt ▸ hv, hlt⟩
    · rw [hcn, hdomain, hqdomain]
    · rw [hid, hgrows.cert_sans hc, hsans]

/-- The first of January 2026. -/
def newYear : ℕ := daysBefore 2026 * day

def nasArgs : CreateArgs := ⟨⟨"e4e-nas.ucsd.edu", .arr [], .newest⟩, "ops@example.com", 30, false⟩

/-- DSM without a certificate, and with the one that was issued. -/
def factory : Box := ⟨fun _ => none, [], newYear⟩

def issued : Box :=
  ⟨fun _ => some "    DNS:e4e-nas.ucsd.edu", [nasCert "d6mvd5"], newYear⟩

/-- A play that issues a certificate, and one the day after. -/
def firstPlay : Play := ⟨factory, true, nasArgs, some true, issued⟩

def nextPlay : Play := ⟨{ issued with now := newYear + day }, true, nasArgs, some true,
  { issued with now := newYear + day }⟩

theorem history_nextPlay : History [nextPlay, firstPlay] nextPlay.after := by
  have hgrows : Grows issued { issued with now := newYear + day } :=
    ⟨Nat.le_add_right _ _, fun c hc => ⟨c, hc, rfl, rfl, rfl⟩, fun _ _ _ _ => rfl⟩
  have hfirst : Grows factory issued :=
    ⟨le_rfl, fun _ h => (nomatch h), fun _ h => (nomatch h)⟩
  exact .play nextPlay (.grow (.play firstPlay (.start factory) hfirst) hgrows) (.refl _)

theorem no_reissue_loop_nextPlay : (nextPlay.ran ascii).requests = [] := by
  have hwant : wanted_names ascii nasArgs.toTarget = some {"e4e-nas.ucsd.edu"} := by
    decide +kernel
  have hsans : cert_sans ascii issued.pems (some "d6mvd5") = some {"e4e-nas.ucsd.edu"} := by
    decide +kernel
  have hv : parse_valid_till ascii (nasCert "d6mvd5").valid_till = some 63929189139000000 := by
    decide +kernel
  exact (no_reissue_loop history_nextPlay).2 [nextPlay] firstPlay [] rfl (by decide +kernel) _
    hwant _ List.mem_cons_self rfl hsans _ hv nextPlay List.mem_cons_self rfl hwant
    (newYear + day + 30 * day) (by decide) (by decide)

end Certificates
