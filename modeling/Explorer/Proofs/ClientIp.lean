import Explorer.Lib.Joined
import Explorer.Ref.Admission

/-!
# The client's address behind the proxies

Each proxy appends the address it was called from, so the hops are to be read
from the right: past the trusted proxies, the first hop was written by a
trusted proxy, and everything left of it by whoever sent the request.
`clientIp` reads that hop and no other.

The code reads the first header line only, and when a hop is no address it
goes on to the left. `resolve_eq_clientIp_iff` says when this makes no
difference: the hop that counts is an address and the first line names the
same one, or it is none and the first line names none either.
-/

namespace Explorer.Ref

open Explorer.Lib

variable {Ip : Type} [DecidableEq Ip] (ip : IpText Ip) (trusted : List Ip)

/-- The bytes of an ASCII text. -/
def asciiBytes (text : String) : List UInt8 :=
  text.toList.map fun c => UInt8.ofNat c.toNat

/-- The hops of all header lines, `44` being the comma. -/
def hops (headers : List (List UInt8)) : List (List UInt8) :=
  headers.flatMap fun line => line.splitOn 44

/-- The address that a hop is, if it is one. -/
def hopAddress (hop : List UInt8) : Option Ip :=
  (headerText hop).bind fun text => ip.parse (trim text)

/-- The hop is a trusted proxy. -/
def isProxy (hop : List UInt8) : Bool :=
  (hopAddress ip hop).any fun a => decide (a ∈ trusted)

/-- The client's address: the right-most hop that is not a trusted proxy, and
the peer where that is no address or there is none. -/
def clientIp (peer : Ip) (headers : List (List UInt8)) : Ip :=
  if peer ∈ trusted then
    match (hops headers).reverse.find? fun hop => !isProxy ip trusted hop with
    | none => peer
    | some hop => (hopAddress ip hop).getD peer
  else peer

/-- The address of a hop, unless it is a trusted proxy's. -/
def untrustedAddress (hop : List UInt8) : Option Ip :=
  (hopAddress ip hop).filter fun a => decide (a ∉ trusted)

/-- The hops of the first header line, if it is text. -/
def firstHops : List (List UInt8) → List (List UInt8)
  | [] => []
  | line :: _ => if (headerText line).isSome then line.splitOn 44 else []

/-- From the right, `a` is the first address on the first line that is not a
trusted proxy's. -/
def FirstLineNames (headers : List (List UInt8)) (a : Ip) : Prop :=
  ∃ skipped hop rest, (firstHops headers).reverse = skipped ++ hop :: rest ∧
    untrustedAddress ip trusted hop = some a ∧
    ∀ h ∈ skipped, untrustedAddress ip trusted h = none

/-- The hop that counts: right of it are trusted proxies only. -/
structure Counts (headers right : List (List UInt8)) (hop : List UInt8)
    (left : List (List UInt8)) : Prop where
  hops : (hops headers).reverse = right ++ hop :: left
  proxies : ∀ h ∈ right, isProxy ip trusted h = true
  client : isProxy ip trusted hop = false

/-- The first line names what the hop that counts is. -/
def FirstLineDecides (headers : List (List UInt8)) : Prop :=
  ∀ right hop left, Counts ip trusted headers right hop left →
    (∀ a, hopAddress ip hop = some a → FirstLineNames ip trusted headers a) ∧
    (hopAddress ip hop = none → ∀ a, ¬ FirstLineNames ip trusted headers a)

/-! ## What the loop reads -/

theorem headerText_isSome {value : List UInt8} :
    (headerText value).isSome = true ↔
      ∀ b ∈ value, (32 ≤ b ∧ b < 127) ∨ b = 9 := by
  unfold headerText
  split
  · next h => simpa using h
  · next h => simpa using h

theorem headerText_eq {value : List UInt8}
    (h : (headerText value).isSome = true) :
    headerText value = some (value.map fun b => Char.ofNat b.toNat) := by
  unfold headerText at h ⊢
  split
  · rfl
  · next hno => rw [if_neg hno] at h; cases h

theorem comma_of_ofNat {b : UInt8} (h : Char.ofNat b.toNat = ',') :
    b = 44 := by
  have hlt := b.toNat_lt
  have hvalid : (Char.ofNat b.toNat).toNat = b.toNat := by
    rw [Char.toNat_ofNat, if_pos (Or.inl (by omega))]
  rw [h] at hvalid
  exact UInt8.toNat_inj.1 hvalid.symm

/-- Split before or after it is decoded, a line has the same hops. -/
theorem splitOn_headerText {line : List UInt8} {text : List Char}
    (h : headerText line = some text) :
    (text.splitOn ',').map some = (line.splitOn 44).map headerText := by
  have hsome : (headerText line).isSome = true := by rw [h]; rfl
  have htext := headerText_eq hsome
  rw [h, Option.some.injEq] at htext
  subst htext
  have hcommas : ∀ b ∈ line,
      Char.ofNat b.toNat = Char.ofNat (44 : UInt8).toNat → b = 44 :=
    fun _ _ hb => comma_of_ofNat hb
  have hmap := splitOn_map (fun b : UInt8 => Char.ofNat b.toNat) 44 hcommas
  rw [show ',' = (fun b : UInt8 => Char.ofNat b.toNat) 44 from rfl, hmap,
    List.map_map]
  refine List.map_congr_left fun hop hhop => ?_
  refine (headerText_eq (headerText_isSome.2 fun b hb => ?_)).symm
  exact headerText_isSome.1 hsome b (mem_of_mem_splitOn hhop hb)

theorem firstUntrusted_eq {texts : List (List Char)}
    {line : List (List UInt8)} (h : texts.map some = line.map headerText) :
    firstUntrusted ip trusted texts =
      line.findSome? (untrustedAddress ip trusted) := by
  induction texts generalizing line with
  | nil =>
      rw [List.map_nil, eq_comm, List.map_eq_nil_iff] at h
      subst h
      rfl
  | cons text rest ih =>
      cases line with
      | nil => cases h
      | cons hop line =>
          rw [List.map_cons, List.map_cons, List.cons.injEq] at h
          have haddress : hopAddress ip hop = ip.parse (trim text) := by
            rw [hopAddress, ← h.1, Option.bind_some]
          rw [firstUntrusted, List.findSome?_cons, untrustedAddress, haddress,
            ih h.2]
          cases ip.parse (trim text) with
          | none => rfl
          | some a =>
              by_cases ha : a ∈ trusted <;> simp [Option.filter_some, ha]

/-- The code, on the hops it reads. -/
theorem resolveClientIp_eq (peer : Ip) (headers : List (List UInt8)) :
    resolveClientIp ip trusted peer headers =
      if peer ∈ trusted then
        ((firstHops headers).reverse.findSome?
          (untrustedAddress ip trusted)).getD peer
      else peer := by
  unfold resolveClientIp
  split
  · cases headers with
    | nil => rfl
    | cons line rest =>
        rw [List.head?_cons, Option.bind_some]
        cases htext : headerText line with
        | none => simp [firstHops, htext]
        | some text =>
            have hhops : firstHops (line :: rest) = line.splitOn 44 := by
              simp [firstHops, htext]
            have hsplit := splitOn_headerText htext
            have hreverse : (text.splitOn ',').reverse.map some =
                (line.splitOn 44).reverse.map headerText := by
              rw [List.map_reverse, List.map_reverse, hsplit]
            rw [hhops, ← firstUntrusted_eq ip trusted hreverse]
  · rfl

theorem firstLineNames_iff {headers : List (List UInt8)} {a : Ip} :
    FirstLineNames ip trusted headers a ↔
      (firstHops headers).reverse.findSome? (untrustedAddress ip trusted) =
        some a := by
  rw [List.findSome?_eq_some_iff]
  rfl

theorem untrustedAddress_notMem {hop : List UInt8} {a : Ip}
    (h : untrustedAddress ip trusted hop = some a) : a ∉ trusted := by
  rw [untrustedAddress, Option.filter_eq_some_iff] at h
  simpa using h.2

/-! ## The hop that counts -/

section

variable {ip trusted} {headers right left : List (List UInt8)}
  {hop : List UInt8}

theorem Counts.mem (h : Counts ip trusted headers right hop left) :
    hop ∈ Ref.hops headers := by
  rw [← List.mem_reverse, h.hops]
  simp

theorem Counts.find (h : Counts ip trusted headers right hop left) :
    (Ref.hops headers).reverse.find? (fun hop => !isProxy ip trusted hop) =
      some hop := by
  rw [List.find?_eq_some_iff_append]
  refine ⟨by simp [h.client], right, left, h.hops, fun x hx => ?_⟩
  simp [h.proxies x hx]

/-- What is left of the hop that counts has no influence. -/
theorem Counts.clientIp_eq {peer : Ip} (hpeer : peer ∈ trusted)
    (h : Counts ip trusted headers right hop left) :
    clientIp ip trusted peer headers = (hopAddress ip hop).getD peer := by
  rw [clientIp, if_pos hpeer, h.find]

/-- There is one hop that counts, so the condition speaks of this one. -/
theorem Counts.decides_iff (h : Counts ip trusted headers right hop left) :
    FirstLineDecides ip trusted headers ↔
      (∀ a, hopAddress ip hop = some a →
        FirstLineNames ip trusted headers a) ∧
      (hopAddress ip hop = none →
        ∀ a, ¬ FirstLineNames ip trusted headers a) := by
  refine ⟨fun hd => hd right hop left h, fun hd right' hop' left' h' => ?_⟩
  have hsame := h.find.symm.trans h'.find
  rw [Option.some.injEq] at hsame
  subst hsame
  exact hd

end

/-- Header lines that agree from the hop that counts to the right give the
same address. -/
theorem clientIp_eq_of_agree {peer : Ip} {headers headers' : List (List UInt8)}
    {right left left' : List (List UInt8)} {hop : List UInt8}
    (h : Counts ip trusted headers right hop left)
    (h' : Counts ip trusted headers' right hop left') :
    clientIp ip trusted peer headers = clientIp ip trusted peer headers' := by
  by_cases hpeer : peer ∈ trusted
  · rw [h.clientIp_eq hpeer, h'.clientIp_eq hpeer]
  · rw [clientIp, clientIp, if_neg hpeer, if_neg hpeer]

variable {ip trusted} in
theorem mem_firstHops {headers : List (List UInt8)} {hop : List UInt8}
    (h : hop ∈ firstHops headers) : hop ∈ hops headers := by
  cases headers with
  | nil => cases h
  | cons line rest =>
      rw [firstHops] at h
      by_cases htext : (headerText line).isSome = true
      · rw [if_pos htext] at h
        rw [hops, List.flatMap_cons]
        exact List.mem_append_left _ h
      · rw [if_neg htext] at h
        cases h

variable {ip trusted} in
/-- Where every hop is a trusted proxy, the first line names no one. -/
theorem not_firstLineNames {headers : List (List UInt8)}
    (h : ∀ hop ∈ hops headers, isProxy ip trusted hop = true) (a : Ip) :
    ¬ FirstLineNames ip trusted headers a := by
  rintro ⟨skipped, hop, rest, hhops, hnamed, -⟩
  have hmem : hop ∈ firstHops headers := by
    rw [← List.mem_reverse, hhops]
    simp
  have hproxy := h hop (mem_firstHops hmem)
  have hout := untrustedAddress_notMem ip trusted hnamed
  rw [untrustedAddress, Option.filter_eq_some_iff] at hnamed
  rw [isProxy, hnamed.1, Option.any_some, decide_eq_true_eq] at hproxy
  exact hout hproxy

/-- The first line decides where it is the only one and all its hops are
addresses. -/
theorem decides_of_addresses {line : List UInt8}
    (htext : (headerText line).isSome = true)
    (haddress : ∀ hop ∈ line.splitOn 44, hopAddress ip hop ≠ none) :
    FirstLineDecides ip trusted [line] := by
  have hfirst : firstHops [line] = hops [line] := by
    simp [firstHops, hops, htext]
  have haddress : ∀ hop ∈ hops [line], hopAddress ip hop ≠ none := by
    simpa [hops] using haddress
  intro right hop left hcounts
  refine ⟨fun a ha => ?_, fun hno => absurd hno (haddress hop hcounts.mem)⟩
  have hout : a ∉ trusted := by simpa [isProxy, ha] using hcounts.client
  refine ⟨right, hop, left, by rw [hfirst, hcounts.hops], ?_, fun h hh => ?_⟩
  · simp [untrustedAddress, ha, Option.filter_some, hout]
  · have hproxy := hcounts.proxies h hh
    cases hh' : hopAddress ip h with
    | none => simp [untrustedAddress, hh']
    | some b =>
        have hb : b ∈ trusted := by simpa [isProxy, hh'] using hproxy
        simp [untrustedAddress, hh', Option.filter_some, hb]

/-- The answer of the code is the client's address just if the peer is not a
trusted proxy or the first line names what the hop that counts is. -/
theorem resolve_eq_clientIp_iff (peer : Ip) (headers : List (List UInt8)) :
    resolveClientIp ip trusted peer headers =
        clientIp ip trusted peer headers ↔
      (peer ∈ trusted → FirstLineDecides ip trusted headers) := by
  by_cases hpeer : peer ∈ trusted
  · simp only [hpeer, true_imp_iff]
    rw [resolveClientIp_eq, if_pos hpeer]
    cases hfind : (hops headers).reverse.find?
        fun hop => !isProxy ip trusted hop with
    | none =>
        -- Every hop is a trusted proxy, so both sides give the peer.
        have hall : ∀ hop ∈ hops headers, isProxy ip trusted hop = true := by
          intro hop hhop
          have := List.find?_eq_none.1 hfind hop (List.mem_reverse.2 hhop)
          simpa using this
        have hnone : (firstHops headers).reverse.findSome?
            (untrustedAddress ip trusted) = none := by
          rw [Option.eq_none_iff_forall_ne_some]
          intro a ha
          exact not_firstLineNames hall a ((firstLineNames_iff ip trusted).2 ha)
        rw [hnone, clientIp, if_pos hpeer, hfind]
        refine ⟨fun _ right hop left hcounts => ?_, fun _ => rfl⟩
        have hclient := hcounts.client
        rw [hall hop hcounts.mem] at hclient
        cases hclient
    | some hop =>
        obtain ⟨hno, right, left, hhops, hright⟩ :=
          List.find?_eq_some_iff_append.1 hfind
        have hno : isProxy ip trusted hop = false := by simpa using hno
        have hcounts : Counts ip trusted headers right hop left :=
          ⟨hhops, by simpa using hright, hno⟩
        rw [hcounts.clientIp_eq hpeer, hcounts.decides_iff]
        simp only [firstLineNames_iff]
        cases hnamed : (firstHops headers).reverse.findSome?
            (untrustedAddress ip trusted) with
        | none =>
            cases haddress : hopAddress ip hop with
            | none => simp
            | some a =>
                have hout : a ∉ trusted := by
                  simpa [isProxy, haddress] using hno
                simp only [Option.getD_none, Option.getD_some]
                refine ⟨fun h => absurd (h ▸ hpeer) hout, fun h => ?_⟩
                exact absurd (h.1 a rfl) (by simp)
        | some b =>
            have hout : b ∉ trusted := by
              obtain ⟨_, h, _, _, hb, _⟩ := List.findSome?_eq_some_iff.1 hnamed
              exact untrustedAddress_notMem ip trusted hb
            cases haddress : hopAddress ip hop with
            | none =>
                simp only [Option.getD_none, Option.getD_some]
                refine ⟨fun h => absurd (h ▸ hpeer) hout, fun h => ?_⟩
                exact absurd rfl (h.2 trivial b)
            | some a => simp [eq_comm]
  · have hcode : resolveClientIp ip trusted peer headers = peer := by
      rw [resolveClientIp, if_neg hpeer]
    have hspec : clientIp ip trusted peer headers = peer := by
      rw [clientIp, if_neg hpeer]
    simp [hpeer, hcode, hspec]

/-- A second line is not read, and a hop that is no address sends the code on
to what the client wrote. -/
theorem resolve_forged :
    (resolveClientIp ipv4Text [[10, 0, 0, 1]] [10, 0, 0, 1]
        [asciiBytes "9.9.9.9", asciiBytes "203.0.113.7"] = [9, 9, 9, 9] ∧
      clientIp ipv4Text [[10, 0, 0, 1]] [10, 0, 0, 1]
        [asciiBytes "9.9.9.9", asciiBytes "203.0.113.7"] =
          [203, 0, 113, 7]) ∧
    (resolveClientIp ipv4Text [[10, 0, 0, 1]] [10, 0, 0, 1]
        [asciiBytes "9.9.9.9, unknown"] = [9, 9, 9, 9] ∧
      clientIp ipv4Text [[10, 0, 0, 1]] [10, 0, 0, 1]
        [asciiBytes "9.9.9.9, unknown"] = [10, 0, 0, 1]) := by
  decide +kernel

end Explorer.Ref
