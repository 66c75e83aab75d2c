import RelayWebhooks.Infra.SsrfGuard
import Mathlib.Tactic.Ring

/-! Which addresses the guard has to refuse, and which of them it lets through. -/
namespace RelayWebhooks

namespace IpNetwork

theorem contains_iff {w : ℕ} (n : IpNetwork w) (a : BitVec w) :
    n.contains a = true ↔
      a.toNat / 2 ^ (w - n.prefixLen) = n.bits.toNat / 2 ^ (w - n.prefixLen) := by
  rw [contains, decide_eq_true_eq, ← BitVec.toNat_inj, BitVec.toNat_ushiftRight,
    BitVec.toNat_ushiftRight, Nat.shiftRight_eq_div_pow, Nat.shiftRight_eq_div_pow]

end IpNetwork

namespace Ipv6

/-- `::ffff:a.b.c.d`. -/
def ofIpv4 (a : BitVec 32) : BitVec 128 := .ofNat 128 (0xffff00000000 + a.toNat)

theorem toNat_ofIpv4 (a : BitVec 32) : (ofIpv4 a).toNat = 0xffff00000000 + a.toNat := by
  have hlt := a.isLt
  rw [ofIpv4, BitVec.toNat_ofNat, Nat.mod_eq_of_lt (by omega)]

theorem ipv4Mapped_ofIpv4 (a : BitVec 32) : ipv4Mapped (ofIpv4 a) = some a := by
  have hlt := a.isLt
  have htop : ofIpv4 a >>> 32 = 0xffff := by
    apply BitVec.eq_of_toNat_eq
    rw [BitVec.toNat_ushiftRight, toNat_ofIpv4, Nat.shiftRight_eq_div_pow]
    show _ = 65535
    omega
  rw [ipv4Mapped, if_pos htop, Option.some.injEq]
  apply BitVec.eq_of_toNat_eq
  rw [BitVec.truncate_eq_setWidth, BitVec.toNat_setWidth, toNat_ofIpv4]
  omega

/-- An address without the prefix of the mapped ones. -/
theorem ipv4Mapped_eq_none {a : BitVec 128} (h : a.toNat / 4294967296 ≠ 65535) :
    ipv4Mapped a = none := by
  rw [ipv4Mapped, if_neg]
  intro htop
  have heq := congrArg BitVec.toNat htop
  rw [BitVec.toNat_ushiftRight, Nat.shiftRight_eq_div_pow] at heq
  exact h heq

end Ipv6

namespace SsrfGuard

/-- Loopback, RFC 1918, link-local and carrier-grade NAT. -/
def internalIpv4 : List (IpNetwork 32) :=
  [ipv4Network 127 0 0 0 8, ipv4Network 10 0 0 0 8, ipv4Network 172 16 0 0 12,
    ipv4Network 192 168 0 0 16, ipv4Network 169 254 0 0 16, ipv4Network 100 64 0 0 10]

/-- Loopback, link-local and unique local. -/
def internalIpv6 : List (IpNetwork 128) :=
  [⟨1, 128⟩, ipv6Network 0xfe80 0 0 0 10, ipv6Network 0xfc00 0 0 0 7]

/-- The addresses no request may reach: those of the internal networks, and denied IPv4 addresses
in their IPv6 form. -/
inductive Internal : IpAddress → Prop
  | ipv4 {n : IpNetwork 32} {a : BitVec 32} (hn : n ∈ internalIpv4) (ha : n.contains a = true) :
    Internal (.v4 a)
  | ipv6 {n : IpNetwork 128} {a : BitVec 128} (hn : n ∈ internalIpv6) (ha : n.contains a = true) :
    Internal (.v6 a)
  | mapped {a : BitVec 32} (ha : isDenied (.v4 a) = true) : Internal (.v6 (Ipv6.ofIpv4 a))

/-- The IPv6 form of a carrier-grade NAT address. -/
def IsMappedCgnat (ip : IpAddress) : Prop :=
  ∃ a, cgnatNetwork.contains a = true ∧ ip = .v6 (Ipv6.ofIpv4 a)

theorem isDenied_iff {ip : IpAddress} :
    isDenied ip = true ↔ ip.isLoopback = true ∨ ip.isLinkLocal = true ∨ ip.isPrivate = true ∨
      ip.isReserved = true ∨ ip.isMulticast = true ∨ ip.isUnspecified = true ∨
      inCgnat ip = true ∨ ip = metadataIp := by
  unfold isDenied
  split_ifs with h1 h2 h3
  · simp only [Bool.or_eq_true] at h1
    simp only [true_iff]
    tauto
  · simp only [Bool.or_eq_true] at h2
    simp only [true_iff]
    tauto
  · simp [h3]
  · simp only [Bool.or_eq_true, not_or] at h1 h2
    simp [h1, h2, h3]

theorem toNat_div_of_cgnat {a : BitVec 32} (h : cgnatNetwork.contains a = true) :
    a.toNat / 4194304 = 401 := by
  simpa [cgnatNetwork, IpNetwork.contains_iff, ipv4Network] using h

/-- No property of the standard library tells a carrier-grade NAT address. -/
theorem cgnat_unflagged {a : BitVec 32} (h : cgnatNetwork.contains a = true) :
    ¬(Ipv4.isLoopback a = true ∨ Ipv4.isLinkLocal a = true ∨ Ipv4.isPrivate a = true ∨
      Ipv4.isReserved a = true ∨ Ipv4.isMulticast a = true ∨ Ipv4.isUnspecified a = true) := by
  have hcgnat := toNat_div_of_cgnat h
  rintro (hflag | hflag | hflag | hflag | hflag | hflag)
  · simp [Ipv4.isLoopback, IpNetwork.contains_iff, ipv4Network] at hflag
    omega
  · simp [Ipv4.isLinkLocal, IpNetwork.contains_iff, ipv4Network] at hflag
    omega
  · obtain ⟨hany, -⟩ := (Bool.and_eq_true _ _).mp hflag
    simp [Ipv4.privateNetworks, IpNetwork.contains_iff, ipv4Network] at hany
    omega
  · simp [Ipv4.isReserved, IpNetwork.contains_iff, ipv4Network] at hflag
    omega
  · simp [Ipv4.isMulticast, IpNetwork.contains_iff, ipv4Network] at hflag
    omega
  · have hzero : a = 0 := of_decide_eq_true hflag
    rw [hzero] at hcgnat
    cases hcgnat

/-- The tests of the standard library answer for the embedded address; the range of carrier-grade
NAT is the one that has no test there. -/
theorem isDenied_ofIpv4 (a : BitVec 32) :
    isDenied (.v6 (Ipv6.ofIpv4 a)) = true ↔
      isDenied (.v4 a) = true ∧ ¬cgnatNetwork.contains a = true := by
  have hmapped := Ipv6.ipv4Mapped_ofIpv4 a
  simp only [isDenied_iff, IpAddress.isLoopback, IpAddress.isLinkLocal, IpAddress.isPrivate,
    IpAddress.isReserved, IpAddress.isMulticast, IpAddress.isUnspecified, IpAddress.test, hmapped,
    inCgnat, metadataIp, reduceCtorEq, Bool.false_eq_true, or_false, IpAddress.v4.injEq]
  constructor
  · intro hflag
    exact ⟨by tauto, fun hcgnat => cgnat_unflagged hcgnat hflag⟩
  · rintro ⟨hflag, hcgnat⟩
    have hmetadata : a = (ipv4Network 169 254 169 254 32).bits → Ipv4.isLinkLocal a = true := by
      rintro rfl
      decide
    tauto

theorem ipv4_isPrivate {n : IpNetwork 32} {a : BitVec 32} (hn : n ∈ Ipv4.privateNetworks)
    (ha : n.contains a = true) (hexcept : a.toNat / 256 ≠ 12582912) :
    Ipv4.isPrivate a = true := by
  refine (Bool.and_eq_true _ _).mpr ⟨List.any_eq_true.mpr ⟨n, hn, ha⟩, ?_⟩
  simp [Ipv4.privateNetworksExceptions, IpNetwork.contains_iff, ipv4Network, ← Bool.not_eq_true]
  omega

theorem isDenied_internalIpv4 {n : IpNetwork 32} {a : BitVec 32} (hn : n ∈ internalIpv4)
    (ha : n.contains a = true) : isDenied (.v4 a) = true := by
  rw [isDenied_iff]
  simp only [internalIpv4, List.mem_cons, List.not_mem_nil, or_false] at hn
  rcases hn with rfl | rfl | rfl | rfl | rfl | rfl
  · exact .inl ha
  · refine .inr (.inr (.inl (ipv4_isPrivate (by simp [Ipv4.privateNetworks]) ha ?_)))
    simp [IpNetwork.contains_iff, ipv4Network] at ha
    omega
  · refine .inr (.inr (.inl (ipv4_isPrivate (by simp [Ipv4.privateNetworks]) ha ?_)))
    simp [IpNetwork.contains_iff, ipv4Network] at ha
    omega
  · refine .inr (.inr (.inl (ipv4_isPrivate (by simp [Ipv4.privateNetworks]) ha ?_)))
    simp [IpNetwork.contains_iff, ipv4Network] at ha
    omega
  · exact .inr (.inl ha)
  · simp [inCgnat, cgnatNetwork, ha]

theorem isDenied_internalIpv6 {n : IpNetwork 128} {a : BitVec 128} (hn : n ∈ internalIpv6)
    (ha : n.contains a = true) : isDenied (.v6 a) = true := by
  rw [isDenied_iff]
  simp only [internalIpv6, List.mem_cons, List.not_mem_nil, or_false] at hn
  have hnone : Ipv6.ipv4Mapped a = none := by
    apply Ipv6.ipv4Mapped_eq_none
    rcases hn with rfl | rfl | rfl <;> simp [IpNetwork.contains_iff, ipv6Network] at ha <;> omega
  simp only [IpAddress.isLoopback, IpAddress.isLinkLocal, IpAddress.isPrivate, IpAddress.test, hnone]
  rcases hn with rfl | rfl | rfl
  · have hone : a = 1 := by
      apply BitVec.eq_of_toNat_eq
      simpa [IpNetwork.contains_iff] using ha
    exact .inl (decide_eq_true hone)
  · exact .inr (.inl ha)
  · refine .inr (.inr (.inl ((Bool.and_eq_true _ _).mpr
      ⟨List.any_eq_true.mpr ⟨_, by simp [Ipv6.privateNetworks], ha⟩, ?_⟩)))
    simp [IpNetwork.contains_iff, ipv6Network] at ha
    simp [Ipv6.privateNetworksExceptions, IpNetwork.contains_iff, ipv6Network, ← Bool.not_eq_true]
    omega

/-- The one kind of internal address that is not denied. -/
theorem isDenied_eq_false_iff {ip : IpAddress} (h : Internal ip) :
    isDenied ip = false ↔ IsMappedCgnat ip := by
  constructor
  · intro hno
    cases h with
    | ipv4 hn ha => rw [isDenied_internalIpv4 hn ha] at hno; cases hno
    | ipv6 hn ha => rw [isDenied_internalIpv6 hn ha] at hno; cases hno
    | @mapped a ha =>
      refine ⟨a, ?_, rfl⟩
      by_contra hcgnat
      rw [(isDenied_ofIpv4 a).mpr ⟨ha, hcgnat⟩] at hno
      cases hno
  · rintro ⟨a, hcgnat, rfl⟩
    refine Bool.eq_false_iff.mpr fun hdenied => ?_
    exact ((isDenied_ofIpv4 a).mp hdenied).2 hcgnat

theorem internal_of_mappedCgnat {ip : IpAddress} (h : IsMappedCgnat ip) : Internal ip := by
  obtain ⟨a, hcgnat, rfl⟩ := h
  exact .mapped (isDenied_internalIpv4 (by simp [internalIpv4, cgnatNetwork]) hcgnat)

/-- The URL passes the checks that come before its host is looked up. -/
structure ReachesResolver (py : PyNet) (allowedPorts : Finset ℕ) (url hostname : PyText)
    (parsed : UrlParts) (p : Option ℕ) : Prop where
  split : py.urlsplit url = some parsed
  scheme : parsed.scheme = PyText.ofString "http" ∨ parsed.scheme = PyText.ofString "https"
  hostname : parsed.hostname = some hostname ∧ hostname ≠ []
  port : parsed.port = some p ∧ effectivePort parsed p ∈ allowedPorts

/-- An internal address at any position is refused, and an allowed URL is pinned to the first
answer, which is not denied. -/
structure GuardsAnswers (py : PyNet) (candidates : List PyText) (check : SsrfCheckResult) :
    Prop where
  refuses : (∃ c ∈ candidates, ∃ ip, py.ipAddress c = some ip ∧ Internal ip) →
    check.allowed = false
  pins : check.allowed = true → ∃ first, candidates.head? = some first ∧
    check.resolvedIp = some first ∧ ∃ ip, py.ipAddress first = some ip ∧ isDenied ip = false

section
variable {py : PyNet} {allowedPorts : Finset ℕ} {resolver : PyText → Lookup}
  {url hostname : PyText} {parsed : UrlParts} {p : Option ℕ} {candidates : List PyText}

theorem checkUrl_of_reaches (h : ReachesResolver py allowedPorts url hostname parsed p) :
    checkUrl py allowedPorts resolver url =
      (checkAddresses py hostname (effectivePort parsed p) (resolver hostname)).map fun check =>
        (check, [hostname]) := by
  obtain ⟨hhost, hne⟩ := h.hostname
  obtain ⟨c, cs, rfl⟩ := List.exists_cons_of_ne_nil hne
  have hscheme : ¬(parsed.scheme ≠ PyText.ofString "http" ∧
      parsed.scheme ≠ PyText.ofString "https") := by
    rintro ⟨hhttp, hhttps⟩
    exact h.scheme.elim hhttp hhttps
  unfold checkUrl
  simp only [h.split, hscheme, hhost, h.port.1, h.port.2, if_false, not_true_eq_false]

/-- Among literals the first denied one is found, or none is denied. -/
theorem firstDenied_cases (hliteral : ∀ c ∈ candidates, (py.ipAddress c).isSome) :
    (∃ c ∈ candidates, firstDenied py candidates = .ok (some c) ∧
        ∃ ip, py.ipAddress c = some ip ∧ isDenied ip = true) ∨
      (firstDenied py candidates = .ok none ∧
        ∀ c ∈ candidates, ∃ ip, py.ipAddress c = some ip ∧ isDenied ip = false) := by
  induction candidates with
  | nil => exact .inr ⟨rfl, by simp⟩
  | cons c candidates ih =>
    obtain ⟨hc, hliteral⟩ := List.forall_mem_cons.mp hliteral
    obtain ⟨ip, hip⟩ := Option.isSome_iff_exists.mp hc
    by_cases hdenied : isDenied ip = true
    · refine .inl ⟨c, by simp, ?_, ip, hip, hdenied⟩
      simp [firstDenied, hip, hdenied]
    · have hstep : firstDenied py (c :: candidates) = firstDenied py candidates := by
        simp [firstDenied, hip, hdenied]
      rw [hstep]
      rcases ih hliteral with ⟨x, hx, hfirst, hip'⟩ | ⟨hfirst, hall⟩
      · exact .inl ⟨x, by simp [hx], hfirst, hip'⟩
      · refine .inr ⟨hfirst, List.forall_mem_cons.mpr ⟨⟨ip, hip, ?_⟩, hall⟩⟩
        simpa using hdenied

/-- The verdict on literals: refused because one is denied or there is none, or pinned to the
first. -/
theorem checkAddresses_cases (hostname : PyText) (port : ℕ)
    (hliteral : ∀ c ∈ candidates, (py.ipAddress c).isSome) :
    ∃ check, checkAddresses py hostname port (.addresses candidates) = .ok check ∧
      ((check.allowed = false ∧ (candidates = [] ∨
          ∃ c ∈ candidates, ∃ ip, py.ipAddress c = some ip ∧ isDenied ip = true)) ∨
        (check.allowed = true ∧ candidates.head? = check.resolvedIp ∧ candidates ≠ [] ∧
          ∀ c ∈ candidates, ∃ ip, py.ipAddress c = some ip ∧ isDenied ip = false)) := by
  cases candidates with
  | nil => exact ⟨_, rfl, .inl ⟨rfl, .inl rfl⟩⟩
  | cons c candidates =>
    rcases firstDenied_cases hliteral with ⟨x, hx, hfirst, hdenied⟩ | ⟨hfirst, hall⟩
    · simp only [checkAddresses, hfirst]
      exact ⟨_, rfl, .inl ⟨rfl, .inr ⟨x, hx, hdenied⟩⟩⟩
    · simp only [checkAddresses, hfirst]
      exact ⟨_, rfl, .inr ⟨rfl, rfl, by simp, hall⟩⟩

/-- The promise, in terms of the answers. -/
theorem guardsAnswers_iff {check : SsrfCheckResult}
    (h : (check.allowed = false ∧ (candidates = [] ∨
          ∃ c ∈ candidates, ∃ ip, py.ipAddress c = some ip ∧ isDenied ip = true)) ∨
        (check.allowed = true ∧ candidates.head? = check.resolvedIp ∧ candidates ≠ [] ∧
          ∀ c ∈ candidates, ∃ ip, py.ipAddress c = some ip ∧ isDenied ip = false)) :
    GuardsAnswers py candidates check ↔
      (∀ c ∈ candidates, ∀ ip, py.ipAddress c = some ip → ¬IsMappedCgnat ip) ∨
        ∃ c ∈ candidates, ∃ ip, py.ipAddress c = some ip ∧ isDenied ip = true := by
  rcases h with ⟨hno, hwhy⟩ | ⟨hallow, hhead, hne, hall⟩
  · have hguards : GuardsAnswers py candidates check :=
      ⟨fun _ => hno, fun hallow => by rw [hno] at hallow; cases hallow⟩
    refine iff_of_true hguards ?_
    rcases hwhy with rfl | hdenied
    · exact .inl (by simp)
    · exact .inr hdenied
  · have hclear : ∀ c ∈ candidates, ∀ ip, py.ipAddress c = some ip → isDenied ip = false := by
      intro c hc ip hip
      obtain ⟨ip', hip', hno⟩ := hall c hc
      rw [hip] at hip'
      cases hip'
      exact hno
    constructor
    · intro hguards
      refine .inl fun c hc ip hip hmapped => ?_
      have hno := hguards.refuses ⟨c, hc, ip, hip, internal_of_mappedCgnat hmapped⟩
      rw [hno] at hallow
      cases hallow
    · rintro (hmapped | ⟨c, hc, ip, hip, hdenied⟩)
      · constructor
        · rintro ⟨c, hc, ip, hip, hinternal⟩
          exact absurd ((isDenied_eq_false_iff hinternal).mp (hclear c hc ip hip))
            (hmapped c hc ip hip)
        · intro _
          obtain ⟨first, rest, rfl⟩ := List.exists_cons_of_ne_nil hne
          obtain ⟨ip, hip, hno⟩ := hall first (by simp)
          exact ⟨first, rfl, hhead.symm, ip, hip, hno⟩
      · rw [hclear c hc ip hip] at hdenied
        cases hdenied

end

/-- The guard keeps its promise on a list of answers exactly if none of them is the IPv6 form of a
carrier-grade NAT address, or another answer is denied; and that is the one range whose addresses
are denied in the IPv4 form alone. -/
theorem checkUrl_guards_iff (py : PyNet) (allowedPorts : Finset ℕ) (resolver : PyText → Lookup)
    (url hostname : PyText) (parsed : UrlParts) (p : Option ℕ)
    (hreach : ReachesResolver py allowedPorts url hostname parsed p) (candidates : List PyText)
    (hanswer : resolver hostname = .addresses candidates)
    (hliteral : ∀ c ∈ candidates, (py.ipAddress c).isSome) :
    (∃ check, checkUrl py allowedPorts resolver url = .ok (check, [hostname]) ∧
      (GuardsAnswers py candidates check ↔
        (∀ c ∈ candidates, ∀ ip, py.ipAddress c = some ip → ¬IsMappedCgnat ip) ∨
          ∃ c ∈ candidates, ∃ ip, py.ipAddress c = some ip ∧ isDenied ip = true)) ∧
    ∀ a, (isDenied (.v4 a) = true → isDenied (.v6 (Ipv6.ofIpv4 a)) = true) ↔
      ¬cgnatNetwork.contains a = true := by
  constructor
  · obtain ⟨check, hcheck, hcases⟩ := checkAddresses_cases hostname (effectivePort parsed p) hliteral
    refine ⟨check, ?_, guardsAnswers_iff hcases⟩
    rw [checkUrl_of_reaches hreach, hanswer, hcheck]
    rfl
  · intro a
    rw [isDenied_ofIpv4]
    constructor
    · intro h hcgnat
      exact (h (isDenied_internalIpv4 (by simp [internalIpv4, cgnatNetwork]) hcgnat)).2 hcgnat
    · exact fun h hdenied => ⟨hdenied, h⟩

def cgnatUrl : PyText := PyText.ofString "https://cgnat.example.com/hook"

def cgnatParts : UrlParts :=
  ⟨PyText.ofString "https", some (PyText.ofString "cgnat.example.com"), some none⟩

def cgnatPy : PyNet where
  urlsplit u := if u = cgnatUrl then some cgnatParts else none
  urljoin _ _ := none
  ipAddress t :=
    if t = PyText.ofString "100.64.0.1" then some (.v4 (ipv4Network 100 64 0 1 32).bits)
    else if t = PyText.ofString "::ffff:100.64.0.1" then
      some (.v6 (Ipv6.ofIpv4 (ipv4Network 100 64 0 1 32).bits))
    else none
  repr t := PyText.ofString "'" ++ t ++ PyText.ofString "'"

theorem checkUrl_guards_plain :
    (∃ check, checkUrl cgnatPy {443} (fun _ => .addresses [PyText.ofString "100.64.0.1"]) cgnatUrl =
        .ok (check, [PyText.ofString "cgnat.example.com"]) ∧
      (GuardsAnswers cgnatPy [PyText.ofString "100.64.0.1"] check ↔
        (∀ c ∈ [PyText.ofString "100.64.0.1"], ∀ ip, cgnatPy.ipAddress c = some ip →
          ¬IsMappedCgnat ip) ∨
          ∃ c ∈ [PyText.ofString "100.64.0.1"], ∃ ip, cgnatPy.ipAddress c = some ip ∧
            isDenied ip = true)) ∧
    ∀ a, (isDenied (.v4 a) = true → isDenied (.v6 (Ipv6.ofIpv4 a)) = true) ↔
      ¬cgnatNetwork.contains a = true :=
  checkUrl_guards_iff cgnatPy {443} (fun _ => .addresses [PyText.ofString "100.64.0.1"]) cgnatUrl
    (PyText.ofString "cgnat.example.com") cgnatParts none
    ⟨rfl, .inr rfl, ⟨rfl, by decide⟩, rfl, by decide⟩ [PyText.ofString "100.64.0.1"] rfl (by decide)

/-- The same address in its IPv6 form is let through, and connected to. -/
theorem checkUrl_allows_mapped_cgnat :
    ∃ check, checkUrl cgnatPy {443} (fun _ => .addresses [PyText.ofString "::ffff:100.64.0.1"])
        cgnatUrl = .ok (check, [PyText.ofString "cgnat.example.com"]) ∧
      check.resolvedIp = some (PyText.ofString "::ffff:100.64.0.1") ∧
      ¬GuardsAnswers cgnatPy [PyText.ofString "::ffff:100.64.0.1"] check := by
  refine ⟨_, rfl, rfl, fun hguards => ?_⟩
  have hinternal : Internal (.v6 (Ipv6.ofIpv4 (ipv4Network 100 64 0 1 32).bits)) :=
    internal_of_mappedCgnat ⟨_, by decide, rfl⟩
  cases hguards.refuses ⟨_, List.mem_singleton_self _, _, rfl, hinternal⟩

end SsrfGuard

end RelayWebhooks
