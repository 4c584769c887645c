import GoREgo.Lib.HostPort
import GoREgo.Lib.IPAddress
import GoREgo.Proto

/-! Peers found by DNS, and the ones among them that are members already.
`discoverDNS` puts a colon between address and port, while `filterKnownPeers` joins them with
`net.JoinHostPort`, which puts brackets around an address with colons. The two texts of an
IPv6 address never meet, so a member with such an address is found again and again.
-/

namespace GoREgo.Cluster.Discovery

open Lib

structure Config where
  dnsServiceName : String
  bindPort : Int
deriving DecidableEq, Repr

/-- What `discoverDNS` meets: the answer to each lookup, the context's error after a failed
one, and the one that ends the second of waiting behind it.
-/
structure Resolver where
  lookupIPAddr : Nat → Except GoError (List IP)
  contextErr : Nat → Option GoError
  waitErr : Nat → Option GoError

/-- The retries of `discoverDNS`, with the last error so far. -/
def resolve (cfg : Config) (resolver : Resolver) : Nat → Nat → GoError → Except GoError (List IP)
  | 0, _, last =>
      .error (.wrap ("DNS lookup failed for " ++ cfg.dnsServiceName ++ " after retries") last)
  | retries + 1, attempt, _ =>
      match resolver.lookupIPAddr attempt with
      | .ok ips => .ok ips
      | .error err =>
          match resolver.contextErr attempt with
          | some done => .error done
          | none =>
              match resolver.waitErr attempt with
              | some done => .error done
              | none => resolve cfg resolver retries (attempt + 1) err

/-- The text of a candidate: `fmt.Sprintf("%s:%d", ip, port)`. -/
def candidate (port : Int) (ip : IP) : String := ip.text ++ ":" ++ toString port

def discoverDNS (cfg : Config) (resolver : Resolver) : Except GoError (List String) :=
  if cfg.dnsServiceName = "" then
    .error (.plain "dns_service_name is required for DNS discovery")
  else
    match resolve cfg resolver 5 0 (.plain "") with
    | .error err => .error err
    | .ok ips => .ok (ips.map (candidate cfg.bindPort))

structure Node where
  addr : IP
  port : Nat
deriving DecidableEq

def Node.key (member : Node) : String :=
  joinHostPort member.addr.text (toString (member.port : Int))

/-- `filterKnownPeers`; without a memberlist every candidate stays. -/
def filterKnownPeers (list : Option (List Node)) (candidates : List String) : List String :=
  match list with
  | none => candidates
  | some members => candidates.filter (fun peer => peer ∉ members.map Node.key)

def isMember (members : List Node) (ip : IP) : Bool :=
  members.any (fun member => member.addr.address = ip.address)

theorem isMember_iff {members : List Node} {ip : IP}
    : isMember members ip = true ↔ ∃ member ∈ members, member.addr.address = ip.address := by
  simp [isMember]

variable {ip : IP} {member : Node} {port : Int}

theorem candidate_ne_bracketed (rest : String) : candidate port ip ≠ "[" ++ rest := by
  intro same
  have chars : ip.text.toList ++ (':' :: (toString port).toList) = '[' :: rest.toList := by
    simpa [candidate] using congrArg String.toList same
  cases text : ip.text.toList with
  | nil =>
      rw [text] at chars
      exact absurd (List.cons.inj chars).1 (by decide)
  | cons c others =>
      rw [text] at chars
      have first : c = '[' := (List.cons.inj chars).1
      exact IP.bracket_notMem_text ip (text ▸ first ▸ List.mem_cons_self)

theorem key_of_four (four : member.addr.to4 ≠ none)
    : member.key = candidate member.port member.addr := by
  have plain : ':' ∉ member.addr.text.toList := fun colon => four (IP.colon_mem_text.mp colon)
  rw [Node.key, joinHostPort, if_neg plain]
  rfl

theorem candidate_inj {other : IP} (same : candidate port ip = candidate port other)
    : ip.text = other.text := by
  apply String.toList_inj.mp
  have chars := congrArg String.toList same
  simp only [candidate, String.toList_append, List.append_assoc] at chars
  exact List.append_cancel_right chars

/-- Among addresses on one port, the texts meet exactly for the same IPv4 address: the key of
an IPv6 member has brackets, and a candidate never has.
-/
theorem candidate_eq_key_iff (samePort : (member.port : Int) = port)
    : candidate port ip = member.key
      ↔ ip.to4 ≠ none ∧ member.addr.address = ip.address := by
  constructor
  · intro same
    by_cases six : member.addr.to4 = none
    · have colon : ':' ∈ member.addr.text.toList := IP.colon_mem_text.mpr six
      rw [Node.key, joinHostPort, if_pos colon, String.append_assoc, String.append_assoc] at same
      exact (candidate_ne_bracketed _ same).elim
    · rw [key_of_four six, samePort] at same
      have texts := candidate_inj same
      have four : ip.to4 ≠ none := by
        intro found
        have colon := IP.colon_mem_text.mpr found
        rw [texts] at colon
        exact six (IP.colon_mem_text.mp colon)
      exact ⟨four, (IP.address_of_text four six texts).symm⟩
  · rintro ⟨four, same⟩
    have known : member.addr.to4 ≠ none := IP.to4_congr same ▸ four
    rw [key_of_four known, samePort, candidate, candidate, IP.text_congr same]

theorem candidate_mem_keys {members : List Node}
    (ports : ∀ member ∈ members, (member.port : Int) = port)
    : candidate port ip ∈ members.map Node.key
      ↔ isMember members ip = true ∧ ip.to4 ≠ none := by
  rw [List.mem_map, isMember_iff]
  constructor
  · rintro ⟨member, listed, same⟩
    obtain ⟨four, address⟩ := (candidate_eq_key_iff (ports member listed)).mp same.symm
    exact ⟨⟨member, listed, address⟩, four⟩
  · rintro ⟨⟨member, listed, address⟩, four⟩
    exact ⟨member, listed, ((candidate_eq_key_iff (ports member listed)).mpr ⟨four, address⟩).symm⟩

/-- What `filterKnownPeers` leaves of the candidates: the ones that are no member, and every
one with an IPv6 address.
-/
theorem filterKnownPeers_candidates (ips : List IP) {members : List Node}
    (ports : ∀ member ∈ members, (member.port : Int) = port)
    : filterKnownPeers (some members) (ips.map (candidate port))
      = (ips.filter (fun ip => ¬ (isMember members ip = true ∧ ip.to4 ≠ none))).map
          (candidate port) := by
  rw [filterKnownPeers, List.filter_map]
  refine congrArg _ (List.filter_congr (fun ip _ => ?_))
  exact decide_eq_decide.mpr (not_congr (candidate_mem_keys ports))

/-- `filterKnownPeers` is exact on what `discoverDNS` found if and only if no member among it
has an IPv6 address.
-/
theorem filterKnownPeers_exact_iff (cfg : Config) (resolver : Resolver)
    (named : cfg.dnsServiceName ≠ "") {ips : List IP}
    (resolved : resolve cfg resolver 5 0 (.plain "") = .ok ips) {members : List Node}
    (ports : ∀ member ∈ members, (member.port : Int) = cfg.bindPort)
    : ∃ peers, discoverDNS cfg resolver = .ok peers
        ∧ (filterKnownPeers (some members) peers
            = (ips.filter (fun ip => ¬ isMember members ip = true)).map (candidate cfg.bindPort)
          ↔ ∀ ip ∈ ips, isMember members ip = true → ip.to4 ≠ none) := by
  refine ⟨ips.map (candidate cfg.bindPort), ?_, ?_⟩
  · rw [discoverDNS, if_neg named, resolved]
  rw [filterKnownPeers_candidates ips ports]
  constructor
  · intro same ip found known
    -- the shorter list of the two is a sublist of the other, and they have one length
    have sub : (ips.filter (fun ip => ¬ isMember members ip = true)).Sublist
        (ips.filter (fun ip => ¬ (isMember members ip = true ∧ ip.to4 ≠ none))) := by
      refine List.monotone_filter_right ips (fun ip stays => ?_)
      exact decide_eq_true (fun both => of_decide_eq_true stays both.1)
    have lengths := congrArg List.length same
    rw [List.length_map, List.length_map] at lengths
    have equal := sub.eq_of_length lengths.symm
    by_contra six
    have kept : ip ∈ ips.filter (fun ip => ¬ (isMember members ip = true ∧ ip.to4 ≠ none)) :=
      List.mem_filter.mpr ⟨found, decide_eq_true (fun both => both.2 six)⟩
    rw [← equal] at kept
    exact of_decide_eq_true (List.mem_filter.mp kept).2 known
  · intro dotted
    refine congrArg _ (List.filter_congr (fun ip found => ?_))
    exact decide_eq_decide.mpr (not_congr
      ⟨fun both => both.1, fun known => ⟨known, dotted ip found known⟩⟩)

def sampleConfig : Config where
  dnsServiceName := "gorego"
  bindPort := 7946

def answering (ips : List IP) : Resolver where
  lookupIPAddr := fun _ => .ok ips
  contextErr := fun _ => none
  waitErr := fun _ => none

def firstPod : IP where
  bytes := [10, 0, 0, 1]
  length_eq := Or.inl rfl

def secondPod : IP where
  bytes := [0, 0, 0, 0, 0, 0, 0, 0, 0, 0, 255, 255, 10, 0, 0, 2]
  length_eq := Or.inr rfl

def sixPod : IP where
  bytes := [253, 0, 0, 0, 0, 0, 0, 0, 0, 0, 0, 0, 0, 0, 0, 1]
  length_eq := Or.inr rfl

example : secondPod.text = "10.0.0.2" := by decide

example : sixPod.text = "fd00::1" := by decide

/-- A member with a dotted address is left out, in either form. -/
theorem dotted_member_left_out
    : ∃ peers, discoverDNS sampleConfig (answering [firstPod, secondPod]) = .ok peers
        ∧ filterKnownPeers (some [⟨secondPod, 7946⟩]) peers = ["10.0.0.1:7946"] := by
  have ports : ∀ member ∈ [(⟨secondPod, 7946⟩ : Node)],
      (member.port : Int) = sampleConfig.bindPort := by
    decide
  obtain ⟨peers, found, precise⟩ := filterKnownPeers_exact_iff sampleConfig
    (answering [firstPod, secondPod]) (by decide) rfl ports
  refine ⟨peers, found, ?_⟩
  rw [precise.mpr (by decide)]
  decide

/-- A member with an IPv6 address stays among the new peers. -/
theorem six_member_stays
    : ¬ ∀ (cfg : Config) (resolver : Resolver) (ips : List IP) (members : List Node)
          (peers : List String),
        resolve cfg resolver 5 0 (.plain "") = .ok ips
        → (∀ member ∈ members, (member.port : Int) = cfg.bindPort)
        → discoverDNS cfg resolver = .ok peers
        → filterKnownPeers (some members) peers
          = (ips.filter (fun ip => ¬ isMember members ip = true)).map
              (candidate cfg.bindPort) := by
  intro always
  have leftOut := always sampleConfig (answering [sixPod]) [sixPod] [⟨sixPod, 7946⟩]
    [candidate 7946 sixPod] rfl (by decide) rfl
  exact absurd leftOut (by decide)

end GoREgo.Cluster.Discovery
