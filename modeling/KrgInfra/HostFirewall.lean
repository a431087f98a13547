/-
The firewall of a host (`nix/modules/security/firewall.nix`).

The module turns the `krg.firewall` options into a list of ports that are open to everyone, and into
nftables rules that accept some sources.  Its assertions keep a port out of contradictory lists.

* `Options`, `Options.assertions` — the options, and what is asserted of them;
* `allowedTCPPorts`, `allowedUDPPorts`, `extraInputRules` — what the module produces;
* `accepts_iff` — its rules accept the sources that are listed for a port, and no others;
* `restricted_closed_iff` — a port with sources is not open to everyone, but for one combination.
-/
import KrgInfra.Nftables

namespace HostFirewall

open Nftables

/-- An entry of `sourcedPorts`. -/
structure SourcedPort where
  port : ℕ
  sources : List String

/-- The options, where `enable` is set. -/
structure Options where
  allowedTCPPorts : List ℕ := []
  publicPorts : List ℕ := []
  allowedUDPPorts : List ℕ := []
  monitoringPorts : List ℕ := []
  monitoringSourceIp : String := "137.110.161.106"
  allowRDP : Bool := false
  rdpSources : List String := []
  sshSources : List String := []
  sourcedPorts : List SourcedPort := []
  sourcedUDPPorts : List SourcedPort := []

/-! ### Rules -/

/-- Only IPv6 addresses have colons. -/
def isV6 (src : String) : Bool := decide (':' ∈ src.toList)

def inlineSet (cidrs : List String) : String := "\x7b " ++ ", ".intercalate cidrs ++ " \x7d"

def familyText : Family → String
  | .v4 => "ip saddr"
  | .v6 => "ip6 saddr"

def protoText : Proto → String
  | .tcp => "tcp"
  | .udp => "udp"

/-- No rule is written for no sources. -/
def mkPortRule (proto : Proto) (family : Family) (port : ℕ) (sources : List String) : String :=
  if sources = [] then ""
  else familyText family ++ " " ++ inlineSet sources ++ " " ++ protoText proto ++ " dport " ++
    toString port ++ " accept\n"

def mkSourcedRules (proto : Proto) (e : SourcedPort) : String :=
  mkPortRule proto .v4 e.port (e.sources.filter fun s => !isV6 s) ++
    mkPortRule proto .v6 e.port (e.sources.filter isV6)

/-! ### What the module produces -/

namespace Options

variable (cfg : Options)

def sshSourceCovered : List ℕ := if cfg.sshSources ≠ [] then [22] else []

def manualSourcedCovered : List ℕ := cfg.sourcedPorts.map SourcedPort.port

def rdpSourceCovered : List ℕ := if cfg.allowRDP ∧ cfg.rdpSources ≠ [] then [3389] else []

def alreadyTighter : List ℕ :=
  cfg.sshSourceCovered ++ cfg.manualSourcedCovered ++ cfg.rdpSourceCovered

def udpSourcedCovered : List ℕ := cfg.sourcedUDPPorts.map SourcedPort.port

def assertions : List Bool :=
  [cfg.publicPorts.all fun p => !cfg.allowedTCPPorts.contains p,
    cfg.publicPorts.all fun p => !(cfg.sourcedPorts.map SourcedPort.port).contains p,
    cfg.allowedTCPPorts.all fun p => !(cfg.sourcedPorts.map SourcedPort.port).contains p,
    cfg.allowedUDPPorts.all fun p => !(cfg.sourcedUDPPorts.map SourcedPort.port).contains p,
    !(cfg.allowRDP && decide (cfg.rdpSources ≠ []) && cfg.publicPorts.contains 3389),
    !(decide (cfg.sshSources ≠ []) && cfg.publicPorts.contains 22)]

/-- `networking.firewall.allowedTCPPorts`: the ports that are open to everyone. -/
def openTCPPorts : List ℕ :=
  cfg.publicPorts ++ cfg.allowedTCPPorts.filter (fun p => !cfg.alreadyTighter.contains p) ++
    if cfg.allowRDP ∧ cfg.rdpSources = [] then [3389] else []

/-- `networking.firewall.allowedUDPPorts` -/
def openUDPPorts : List ℕ := cfg.allowedUDPPorts.filter fun p => !cfg.udpSourcedCovered.contains p

def extraInputRules : String :=
  String.join (cfg.monitoringPorts.map fun port =>
      mkSourcedRules .tcp ⟨port, [cfg.monitoringSourceIp]⟩) ++
    mkSourcedRules .tcp ⟨22, cfg.sshSources⟩ ++
    (if cfg.allowRDP then mkSourcedRules .tcp ⟨3389, cfg.rdpSources⟩ else "") ++
    String.join (cfg.sourcedPorts.map (mkSourcedRules .tcp)) ++
    String.join (cfg.sourcedUDPPorts.map (mkSourcedRules .udp))

/-! ### What is listed for a port -/

/-- The entries for TCP that restrict a port, in the order of their rules. -/
def tcpEntries : List SourcedPort :=
  ⟨22, cfg.sshSources⟩ :: ((if cfg.allowRDP then [⟨3389, cfg.rdpSources⟩] else []) ++
    cfg.sourcedPorts)

def monitoringEntries : List SourcedPort :=
  cfg.monitoringPorts.map fun port => ⟨port, [cfg.monitoringSourceIp]⟩

/-- The sources that are listed for a port. -/
def listed : Proto → ℕ → List String
  | .tcp, port => (if port = 22 then cfg.sshSources else []) ++
      (if port = 3389 ∧ cfg.allowRDP then cfg.rdpSources else []) ++
      (cfg.sourcedPorts.filter fun e => e.port = port).flatMap SourcedPort.sources
  | .udp, port => (cfg.sourcedUDPPorts.filter fun e => e.port = port).flatMap SourcedPort.sources

/-- The monitoring source, of a port that it scrapes. -/
def monitoring : Proto → ℕ → List String
  | .tcp, port => if port ∈ cfg.monitoringPorts then [cfg.monitoringSourceIp] else []
  | .udp, _ => []

/-- A port with sources of its own, if only an empty list of them. -/
def Restricted : Proto → ℕ → Prop
  | .tcp, port => port = 22 ∧ cfg.sshSources ≠ [] ∨
      port = 3389 ∧ cfg.allowRDP = true ∧ cfg.rdpSources ≠ [] ∨
      ∃ e ∈ cfg.sourcedPorts, e.port = port
  | .udp, port => ∃ e ∈ cfg.sourcedUDPPorts, e.port = port

def openPorts : Proto → List ℕ
  | .tcp => cfg.openTCPPorts
  | .udp => cfg.openUDPPorts

/-- All sources of all options. -/
def sources : List String :=
  cfg.monitoringSourceIp :: (cfg.sshSources ++ cfg.rdpSources ++
    cfg.sourcedPorts.flatMap SourcedPort.sources ++ cfg.sourcedUDPPorts.flatMap SourcedPort.sources)

end Options

/-! ### The rules, read -/

def rulesOf (proto : Proto) (family : Family) (port : ℕ) (sources : List String) : List Rule :=
  if sources = [] then [] else [⟨family, sources, proto, port⟩]

/-- The rules of an entry, one for each family that it has sources of. -/
def sourcedRules (proto : Proto) (e : SourcedPort) : List Rule :=
  rulesOf proto .v4 e.port (e.sources.filter fun s => !isV6 s) ++
    rulesOf proto .v6 e.port (e.sources.filter isV6)

def Options.rules (cfg : Options) : List Rule :=
  (cfg.monitoringEntries ++ cfg.tcpEntries).flatMap (sourcedRules .tcp) ++
    cfg.sourcedUDPPorts.flatMap (sourcedRules .udp)

def lines (rules : List Rule) : List Char := rules.flatMap fun r => r.line ++ ['\n']

theorem lines_append (a b : List Rule) : lines (a ++ b) = lines a ++ lines b :=
  List.flatMap_append

/-- The elements between the braces, and what comes after them. -/
theorem toList_elements {cidrs : List String} (hne : cidrs ≠ []) (rest : List (List Char))
    (hrest : rest ≠ []) :
    [' '].intercalate (elementWords cidrs ++ rest) =
      (", ".intercalate cidrs).toList ++ ' ' :: [' '].intercalate rest := by
  rw [String.toList_intercalate]
  induction cidrs with
  | nil => exact absurd rfl hne
  | cons e es ih =>
    cases es with
    | nil =>
      rw [elementWords, List.singleton_append, List.intercalate_cons_of_ne_nil hrest,
        List.map_singleton, List.intercalate_singleton, List.append_assoc]
      rfl
    | cons e' es =>
      have hwords : elementWords (e' :: es) ++ rest ≠ [] := by simp [hrest]
      rw [elementWords, List.cons_append, List.intercalate_cons_of_ne_nil hwords,
        ih (List.cons_ne_nil _ _)]
      simp only [List.map_cons]
      rw [List.intercalate_cons_cons]
      simp

/-- A rule is written on a line of its own. -/
theorem toList_mkPortRule (proto : Proto) (family : Family) (port : ℕ) (sources : List String) :
    (mkPortRule proto family port sources).toList =
      lines (rulesOf proto family port sources) := by
  rw [mkPortRule, rulesOf]
  split_ifs with hsources
  · rfl
  · have hfamily : (familyText family).toList = family.word ++ ' ' :: "saddr".toList := by
      cases family <;> rfl
    have hproto : (protoText proto).toList = proto.word := by
      cases proto <;> rfl
    have hport : (toString port).toList = Nat.toDigits 10 port := by
      show port.repr.toList = _
      rw [Nat.repr_eq_ofList_toDigits, String.toList_ofList]
    have htail : [' '].intercalate (tailWords proto port) =
        '}' :: ' ' :: (proto.word ++ " dport ".toList ++ Nat.toDigits 10 port ++
          " accept".toList) := by
      rw [tailWords, List.intercalate_cons_cons, List.intercalate_cons_cons,
        List.intercalate_cons_cons, List.intercalate_cons_cons, List.intercalate_singleton]
      simp
    have hset : [' '].intercalate (elementWords sources ++ tailWords proto port) =
        (", ".intercalate sources).toList ++ ' ' :: [' '].intercalate (tailWords proto port) :=
      toList_elements hsources _ (List.cons_ne_nil _ _)
    have hwords : elementWords sources ++ tailWords proto port ≠ [] := by simp [tailWords]
    have hline : Rule.line ⟨family, sources, proto, port⟩ = family.word ++ [' '] ++
        ("saddr".toList ++ [' '] ++ (['{'] ++ [' '] ++
          [' '].intercalate (elementWords sources ++ tailWords proto port))) := by
      rw [Rule.line, Rule.words, List.intercalate_cons_cons, List.intercalate_cons_cons,
        List.intercalate_cons_of_ne_nil hwords]
    rw [lines, List.flatMap_singleton, hline, hset, htail]
    simp only [String.toList_append, inlineSet, hfamily, hproto, hport]
    simp

theorem toList_mkSourcedRules (proto : Proto) (e : SourcedPort) :
    (mkSourcedRules proto e).toList = lines (sourcedRules proto e) := by
  rw [mkSourcedRules, String.toList_append, toList_mkPortRule, toList_mkPortRule, ← lines_append,
    sourcedRules]

theorem toList_join_sourced (proto : Proto) (entries : List SourcedPort) :
    (String.join (entries.map (mkSourcedRules proto))).toList =
      lines (entries.flatMap (sourcedRules proto)) := by
  rw [String.toList_join, List.flatMap_map, lines, List.flatMap_assoc]
  exact List.flatMap_congr fun e _ => toList_mkSourcedRules proto e

namespace Options

variable {cfg : Options}

theorem toList_extraInputRules : cfg.extraInputRules.toList = lines cfg.rules := by
  have hmonitoring : cfg.monitoringPorts.map (fun port =>
      mkSourcedRules .tcp ⟨port, [cfg.monitoringSourceIp]⟩) =
        cfg.monitoringEntries.map (mkSourcedRules .tcp) := by
    rw [monitoringEntries, List.map_map]
    rfl
  have hrdp : (if cfg.allowRDP then mkSourcedRules .tcp ⟨3389, cfg.rdpSources⟩ else "").toList =
      lines ((if cfg.allowRDP then [⟨3389, cfg.rdpSources⟩] else []).flatMap
        (sourcedRules .tcp)) := by
    split_ifs
    · rw [toList_mkSourcedRules, List.flatMap_singleton]
    · rfl
  rw [extraInputRules, hmonitoring]
  simp only [String.toList_append, toList_join_sourced, toList_mkSourcedRules, hrdp]
  rw [rules, tcpEntries]
  simp only [← lines_append, List.flatMap_append, List.flatMap_cons, List.append_assoc]

theorem mem_rules {r : Rule} (h : r ∈ cfg.rules) :
    r.elements ≠ [] ∧ ∀ e ∈ r.elements, e ∈ cfg.sources := by
  have hrulesOf : ∀ {proto family port srcs}, r ∈ rulesOf proto family port srcs →
      r.elements = srcs ∧ srcs ≠ [] := by
    intro proto family port srcs h
    rw [rulesOf] at h
    split_ifs at h with hne
    · exact nomatch h
    · rw [List.mem_singleton.mp h]
      exact ⟨rfl, hne⟩
  have hsourced : ∀ {proto} {e : SourcedPort}, r ∈ sourcedRules proto e →
      r.elements ≠ [] ∧ ∀ s ∈ r.elements, s ∈ e.sources := by
    intro proto e h
    obtain h | h := List.mem_append.mp h
    · obtain ⟨helements, hne⟩ := hrulesOf h
      rw [helements]
      exact ⟨hne, fun s hs => List.mem_of_mem_filter hs⟩
    · obtain ⟨helements, hne⟩ := hrulesOf h
      rw [helements]
      exact ⟨hne, fun s hs => List.mem_of_mem_filter hs⟩
  have hentries : ∀ {e : SourcedPort}, e ∈ cfg.monitoringEntries ++ cfg.tcpEntries ++
      cfg.sourcedUDPPorts → ∀ s ∈ e.sources, s ∈ cfg.sources := by
    intro e he s hs
    simp only [monitoringEntries, tcpEntries, List.mem_append, List.mem_cons, List.mem_map] at he
    simp only [sources, List.mem_cons, List.mem_append, List.mem_flatMap]
    obtain (⟨port, -, rfl⟩ | rfl | he | he) | he := he
    · exact .inl (List.mem_singleton.mp hs)
    · exact .inr (.inl (.inl (.inl hs)))
    · split_ifs at he
      · rw [List.mem_singleton.mp he] at hs
        exact .inr (.inl (.inl (.inr hs)))
      · exact nomatch he
    · exact .inr (.inl (.inr ⟨e, he, hs⟩))
    · exact .inr (.inr ⟨e, he, hs⟩)
  obtain h | h := List.mem_append.mp h
  · obtain ⟨e, he, hr⟩ := List.mem_flatMap.mp h
    exact ⟨(hsourced hr).1, fun s hs =>
      hentries (List.mem_append_left _ he) s ((hsourced hr).2 s hs)⟩
  · obtain ⟨e, he, hr⟩ := List.mem_flatMap.mp h
    exact ⟨(hsourced hr).1, fun s hs =>
      hentries (List.mem_append_right _ he) s ((hsourced hr).2 s hs)⟩

/-- The rules that the module writes are those that are read. -/
theorem readRules_extraInputRules (hplain : ∀ s ∈ cfg.sources, Plain s) :
    readRules cfg.extraInputRules = some cfg.rules :=
  readRules_lines toList_extraInputRules fun _ hr =>
    ⟨(mem_rules hr).1, fun e he => hplain e ((mem_rules hr).2 e he)⟩

end Options

variable {M : Matching} {cfg : Options}

theorem accepts_rulesOf {proto proto' : Proto} {family : Family} {port port' : ℕ}
    {sources : List String} {a : Address} :
    (∃ r ∈ rulesOf proto' family port' sources, r.Accepts M proto port a) ↔
      proto' = proto ∧ port' = port ∧ family = a.family ∧ ∃ s ∈ sources, M.covers s a = true := by
  rw [rulesOf]
  split_ifs with hsources
  · constructor
    · rintro ⟨r, hr, -⟩
      exact nomatch hr
    · rintro ⟨-, -, -, s, hs, -⟩
      rw [hsources] at hs
      exact nomatch hs
  · constructor
    · rintro ⟨r, hr, haccepts⟩
      rw [List.mem_singleton.mp hr] at haccepts
      exact haccepts
    · exact fun h => ⟨_, List.mem_singleton_self _, h⟩

/-- The rules of an entry accept its sources, of either family. -/
theorem accepts_sourcedRules {proto proto' : Proto} {port : ℕ} {e : SourcedPort} {a : Address} :
    (∃ r ∈ sourcedRules proto' e, r.Accepts M proto port a) ↔
      proto' = proto ∧ e.port = port ∧ ∃ s ∈ e.sources, M.covers s a = true := by
  have hsplit : (∃ r ∈ sourcedRules proto' e, r.Accepts M proto port a) ↔
      (∃ r ∈ rulesOf proto' .v4 e.port (e.sources.filter fun s => !isV6 s),
        r.Accepts M proto port a) ∨
      ∃ r ∈ rulesOf proto' .v6 e.port (e.sources.filter isV6), r.Accepts M proto port a := by
    simp only [sourcedRules, List.mem_append, or_and_right, exists_or]
  rw [hsplit, accepts_rulesOf, accepts_rulesOf]
  constructor
  · rintro (⟨hproto, hport, -, s, hs, hcovers⟩ | ⟨hproto, hport, -, s, hs, hcovers⟩)
    · exact ⟨hproto, hport, s, List.mem_of_mem_filter hs, hcovers⟩
    · exact ⟨hproto, hport, s, List.mem_of_mem_filter hs, hcovers⟩
  · rintro ⟨hproto, hport, s, hs, hcovers⟩
    have hfamily := M.family_of_covers hcovers
    by_cases hcolon : ':' ∈ s.toList
    · refine .inr ⟨hproto, hport, (hfamily.mpr hcolon).symm, s, ?_, hcovers⟩
      exact List.mem_filter.mpr ⟨hs, decide_eq_true hcolon⟩
    · have hv4 : Family.v4 = a.family := by
        cases ha : a.family with
        | v4 => rfl
        | v6 => exact absurd (hfamily.mp ha) hcolon
      refine .inl ⟨hproto, hport, hv4, s, List.mem_filter.mpr ⟨hs, ?_⟩, hcovers⟩
      rw [isV6, decide_eq_false hcolon]
      rfl

/-- The sources of the entries for a port are those that are listed for it. -/
theorem mem_listed_tcp {port : ℕ} {s : String} :
    (∃ e ∈ cfg.monitoringEntries ++ cfg.tcpEntries, e.port = port ∧ s ∈ e.sources) ↔
      s ∈ cfg.listed .tcp port ++ cfg.monitoring .tcp port := by
  simp only [Options.monitoringEntries, Options.tcpEntries, Options.listed, Options.monitoring,
    List.mem_append, List.mem_cons, List.mem_map, List.mem_flatMap, List.mem_filter,
    decide_eq_true_iff]
  constructor
  · rintro ⟨e, ⟨port', hport, rfl⟩ | rfl | he | he, rfl, hs⟩
    · exact .inr (by rwa [if_pos hport])
    · exact .inl (.inl (.inl (by rwa [if_pos rfl])))
    · split_ifs at he with hrdp
      · obtain rfl := List.mem_singleton.mp he
        exact .inl (.inl (.inr (by rwa [if_pos ⟨rfl, hrdp⟩])))
      · exact nomatch he
    · exact .inl (.inr ⟨e, ⟨he, rfl⟩, hs⟩)
  · rintro (((hs | hs) | ⟨e, ⟨he, hport⟩, hs⟩) | hs)
    · split_ifs at hs with hport
      · exact ⟨_, .inr (.inl rfl), hport.symm, hs⟩
      · exact nomatch hs
    · split_ifs at hs with hrdp
      · exact ⟨⟨3389, cfg.rdpSources⟩, .inr (.inr (.inl (by simp [hrdp.2]))), hrdp.1.symm, hs⟩
      · exact nomatch hs
    · exact ⟨e, .inr (.inr (.inr he)), hport, hs⟩
    · split_ifs at hs with hport
      · exact ⟨_, .inl ⟨port, hport, rfl⟩, rfl, hs⟩
      · exact nomatch hs

theorem mem_listed_udp {port : ℕ} {s : String} :
    (∃ e ∈ cfg.sourcedUDPPorts, e.port = port ∧ s ∈ e.sources) ↔
      s ∈ cfg.listed .udp port ++ cfg.monitoring .udp port := by
  simp only [Options.listed, Options.monitoring, List.append_nil, List.mem_flatMap,
    List.mem_filter, decide_eq_true_iff, and_assoc]

/-- The rules of the module accept the sources that are listed for a port, and the monitoring
source. -/
theorem accepts_iff (hplain : ∀ s ∈ cfg.sources, Plain s) (proto : Proto) (port : ℕ)
    (a : Address) : Accepts M cfg.extraInputRules proto port a ↔
      ∃ s ∈ cfg.listed proto port ++ cfg.monitoring proto port, M.covers s a = true := by
  have hread : Accepts M cfg.extraInputRules proto port a ↔
      ∃ r ∈ cfg.rules, r.Accepts M proto port a := by
    rw [Accepts, Options.readRules_extraInputRules hplain]
    exact ⟨fun ⟨_, h, hr⟩ => Option.some_inj.mp h ▸ hr, fun h => ⟨_, rfl, h⟩⟩
  have hentries : ∀ (proto' : Proto) (entries : List SourcedPort),
      (∃ r ∈ entries.flatMap (sourcedRules proto'), r.Accepts M proto port a) ↔
        proto' = proto ∧ ∃ e ∈ entries, e.port = port ∧ ∃ s ∈ e.sources, M.covers s a = true := by
    intro proto' entries
    constructor
    · rintro ⟨r, hr, haccepts⟩
      obtain ⟨e, he, hr⟩ := List.mem_flatMap.mp hr
      obtain ⟨hproto, h⟩ := accepts_sourcedRules.mp ⟨r, hr, haccepts⟩
      exact ⟨hproto, e, he, h⟩
    · rintro ⟨hproto, e, he, h⟩
      obtain ⟨r, hr, haccepts⟩ := accepts_sourcedRules.mpr ⟨hproto, h⟩
      exact ⟨r, List.mem_flatMap.mpr ⟨e, he, hr⟩, haccepts⟩
  have hcovers : ∀ entries : List SourcedPort,
      (∃ e ∈ entries, e.port = port ∧ ∃ s ∈ e.sources, M.covers s a = true) ↔
        ∃ s, (∃ e ∈ entries, e.port = port ∧ s ∈ e.sources) ∧ M.covers s a = true :=
    fun entries => ⟨fun ⟨e, he, hport, s, hs, h⟩ => ⟨s, ⟨e, he, hport, hs⟩, h⟩,
      fun ⟨s, ⟨e, he, hport, hs⟩, h⟩ => ⟨e, he, hport, s, hs, h⟩⟩
  have hsplit : (∃ r ∈ cfg.rules, r.Accepts M proto port a) ↔
      (Proto.tcp = proto ∧ ∃ e ∈ cfg.monitoringEntries ++ cfg.tcpEntries, e.port = port ∧
        ∃ s ∈ e.sources, M.covers s a = true) ∨
      Proto.udp = proto ∧ ∃ e ∈ cfg.sourcedUDPPorts, e.port = port ∧
        ∃ s ∈ e.sources, M.covers s a = true := by
    rw [← hentries, ← hentries, Options.rules]
    constructor
    · rintro ⟨r, hr, h⟩
      exact (List.mem_append.mp hr).imp (fun hr => ⟨r, hr, h⟩) fun hr => ⟨r, hr, h⟩
    · rintro (⟨r, hr, h⟩ | ⟨r, hr, h⟩)
      · exact ⟨r, List.mem_append_left _ hr, h⟩
      · exact ⟨r, List.mem_append_right _ hr, h⟩
  rw [hread, hsplit, hcovers, hcovers]
  cases proto with
  | tcp =>
    simp only [mem_listed_tcp]
    exact ⟨fun h => h.elim And.right fun h => Proto.noConfusion h.1, fun h => .inl ⟨trivial, h⟩⟩
  | udp =>
    simp only [mem_listed_udp]
    exact ⟨fun h => h.elim (fun h => Proto.noConfusion h.1) And.right, fun h => .inr ⟨trivial, h⟩⟩

/-! ### The ports that are open to everyone -/

/-- What the assertions say of the ports that are open to everyone, RDP apart: no restricted port is
one of them. -/
theorem restricted_not_open (hassert : cfg.assertions.all id = true) {proto : Proto} {port : ℕ}
    (hrestricted : cfg.Restricted proto port)
    (hrdp : ¬ (proto = .tcp ∧ port = 3389 ∧ cfg.allowRDP = true ∧ cfg.rdpSources = [])) :
    port ∉ cfg.openPorts proto := by
  simp only [Options.assertions, List.all_cons, List.all_nil, id_eq, Bool.and_true,
    Bool.and_eq_true] at hassert
  obtain ⟨-, hpublic, -, -, hpublicRdp, hpublicSsh⟩ := hassert
  cases proto with
  | udp =>
    obtain ⟨e, he, rfl⟩ := hrestricted
    intro hmem
    have hcovered := (List.mem_filter.mp hmem).2
    rw [Options.udpSourcedCovered, List.contains_iff_mem.mpr (List.mem_map_of_mem he)] at hcovered
    exact absurd hcovered Bool.false_ne_true
  | tcp =>
    have htighter : port ∈ cfg.alreadyTighter := by
      rw [Options.alreadyTighter, List.mem_append, List.mem_append]
      obtain ⟨rfl, hssh⟩ | ⟨rfl, hallow, hsources⟩ | ⟨e, he, rfl⟩ := hrestricted
      · exact .inl (.inl (by rw [Options.sshSourceCovered, if_pos hssh]; simp))
      · exact .inr (by rw [Options.rdpSourceCovered, if_pos ⟨hallow, hsources⟩]; simp)
      · exact .inl (.inr (List.mem_map_of_mem he))
    intro hmem
    obtain hmem | hmem := List.mem_append.mp hmem
    · obtain hmem | hmem := List.mem_append.mp hmem
      · -- the assertions keep it out of the public ports
        obtain ⟨rfl, hssh⟩ | ⟨rfl, hallow, hsources⟩ | ⟨e, he, rfl⟩ := hrestricted
        · rw [decide_eq_true hssh, List.contains_iff_mem.mpr hmem] at hpublicSsh
          exact absurd hpublicSsh Bool.false_ne_true
        · rw [hallow, decide_eq_true hsources, List.contains_iff_mem.mpr hmem] at hpublicRdp
          exact absurd hpublicRdp Bool.false_ne_true
        · have hnot := List.all_eq_true.mp hpublic _ hmem
          rw [List.contains_iff_mem.mpr (List.mem_map_of_mem he)] at hnot
          exact absurd hnot Bool.false_ne_true
      · have hnot := (List.mem_filter.mp hmem).2
        rw [List.contains_iff_mem.mpr htighter] at hnot
        exact absurd hnot Bool.false_ne_true
    · split_ifs at hmem with hopen
      · exact hrdp ⟨rfl, List.mem_singleton.mp hmem, hopen⟩
      · exact nomatch hmem

/-- No restricted port is open to everyone, and the rules accept the sources that are listed for it,
exactly if RDP is not open while its port is one of the sourced ports. -/
theorem restricted_closed_iff (M : Matching) {cfg : Options}
    (hassert : cfg.assertions.all id = true) (hplain : ∀ s ∈ cfg.sources, Plain s) :
    (∀ proto port, cfg.Restricted proto port → port ∉ cfg.openPorts proto ∧
      ∀ a, Accepts M cfg.extraInputRules proto port a ↔
        ∃ s ∈ cfg.listed proto port ++ cfg.monitoring proto port, M.covers s a = true) ↔
      ¬ (cfg.allowRDP = true ∧ cfg.rdpSources = [] ∧ ∃ e ∈ cfg.sourcedPorts, e.port = 3389) := by
  constructor
  · rintro h ⟨hallow, hsources, he⟩
    refine (h .tcp 3389 (.inr (.inr he))).1 ?_
    refine List.mem_append_right _ ?_
    rw [if_pos ⟨hallow, hsources⟩]
    exact List.mem_singleton_self _
  · intro h proto port hrestricted
    refine ⟨restricted_not_open hassert hrestricted ?_, accepts_iff hplain proto port⟩
    rintro ⟨rfl, rfl, hallow, hsources⟩
    obtain ⟨hport, -⟩ | ⟨-, -, hne⟩ | he := hrestricted
    · exact absurd hport (by decide)
    · exact hne hsources
    · exact h ⟨hallow, hsources, he⟩

/-! ### A directory server and a compute host -/

/-- A matching that knows two networks. -/
def twoNetworks : Matching where
  covers e a :=
    match a with
    | .v4 a => e = "132.239.0.0/16" ∧ a.toNat / 2 ^ 16 = 132 * 2 ^ 8 + 239
    | .v6 a => e = "2001:db8::/32" ∧ a.toNat / 2 ^ 96 = 0x20010db8
  family_of_covers {e a} h := by
    cases a with
    | v4 a =>
      obtain ⟨rfl, -⟩ := of_decide_eq_true h
      exact ⟨fun h => (nomatch h), fun h => absurd h (by decide)⟩
    | v6 a =>
      obtain ⟨rfl, -⟩ := of_decide_eq_true h
      exact ⟨fun _ => by decide, fun _ => rfl⟩

/-- SSH, RDP and DNS for some sources, HTTP for everyone. -/
def directoryServer : Options where
  publicPorts := [80]
  monitoringPorts := [9100, 53]
  allowRDP := true
  rdpSources := ["132.239.0.0/16"]
  sshSources := ["132.239.0.0/16", "2001:db8::/32"]
  sourcedPorts := [⟨53, ["2001:db8::/32"]⟩, ⟨636, []⟩]
  sourcedUDPPorts := [⟨53, ["132.239.0.0/16", "2001:db8::/32"]⟩]

theorem restricted_closed_directoryServer : directoryServer.Restricted .tcp 636 ∧
    ∀ proto port,
      directoryServer.Restricted proto port → port ∉ directoryServer.openPorts proto ∧
        ∀ a, Accepts twoNetworks directoryServer.extraInputRules proto port a ↔
          ∃ s ∈ directoryServer.listed proto port ++ directoryServer.monitoring proto port,
            twoNetworks.covers s a = true :=
  ⟨.inr (.inr ⟨⟨636, []⟩, by simp [directoryServer], rfl⟩),
    (restricted_closed_iff twoNetworks (by decide) (by decide)).mpr (by decide)⟩

/-- RDP for some sources by `sourcedPorts`, and `allowRDP` as well. -/
def doublyListed : Options where
  allowRDP := true
  sourcedPorts := [⟨3389, ["132.239.0.0/16"]⟩]

/-- Nothing is asserted of RDP and `sourcedPorts`: the port is open to everyone. -/
theorem doublyListed_open : doublyListed.assertions.all id = true ∧
    doublyListed.Restricted .tcp 3389 ∧ 3389 ∈ doublyListed.openPorts .tcp :=
  ⟨by decide, .inr (.inr ⟨_, List.mem_singleton_self _, rfl⟩), by decide⟩

end HostFirewall
