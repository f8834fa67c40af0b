import Glass2Glass.Klv.Ber

/-!
# Items and packets

How the items of a local set are visited, and how packets are split (`walk_tlv` and `split_klv_packets` in
`g2g-plugins/src/klv.rs`). Both go over items that stand one after another from the front, and stop where no whole item
stands (`walkTlv_body`, `splitKlvPackets_body`).
-/

namespace Glass2Glass.Klv

open Words List

variable {σ : Type}

/-- The items of a local set are given to `f`, until one is not whole or `f` fails. -/
def walkTlv (f : Nat → List UInt8 → σ → σ × Bool) (body : List UInt8) (pos : Nat) (s : σ) : σ × Bool :=
  if body.length ≤ pos then (s, true)
  else
    match _htag : berOidTag body pos with
    | none => (s, false)
    | some (tag, tagBytes) =>
      match berLength body (pos + tagBytes) with
      | none => (s, false)
      | some (len, lenBytes) =>
        let start := pos + tagBytes + lenBytes
        if body.length < start + len then (s, false)
        else
          match f tag (slice body start len) s with
          | (s, false) => (s, false)
          | (s, true) => walkTlv f body (start + len) s
termination_by body.length - pos
decreasing_by
  obtain ⟨bytes, _, _, hform, hlength⟩ := form_of_berOidTag ‹berOidTag body pos = some (tag, tagBytes)›
  have hpos := hform.pos
  omega

def smptePrefix : List UInt8 := [0x06, 0x0E, 0x2B, 0x34]

/-- The packets at the front, up to the first bytes that are not a whole packet. -/
def splitKlvPackets (buf : List UInt8) : List (List UInt8) :=
  if 17 ≤ buf.length ∧ buf.take 4 = smptePrefix then
    match berLength buf 16 with
    | none => []
    | some (len, lenBytes) =>
      let total := len + (16 + lenBytes)
      if buf.length < total then [] else buf.take total :: splitKlvPackets (buf.drop total)
  else []
termination_by buf.length
decreasing_by
  rw [length_drop]
  omega

/-! ## Items -/

/-- An item of a local set, as it is written. -/
structure TlvItem where
  tag : Nat
  value : List UInt8
  tagBytes : List UInt8
  lengthBytes : List UInt8
  tagForm : OidForm tagBytes tag
  lengthForm : BerForm lengthBytes value.length

def TlvItem.bytes (item : TlvItem) : List UInt8 := item.tagBytes ++ (item.lengthBytes ++ item.value)

/-- An item as the writers write it. -/
def TlvItem.pushed (tag : Nat) (value : List UInt8) (htag : tag ≤ berOidMax) (hvalue : value.length < 2 ^ 32) :
    TlvItem where
  tag
  value
  tagBytes := pushBerOid tag
  lengthBytes := pushBerLength value.length
  tagForm := form_pushBerOid htag
  lengthForm := form_pushBerLength hvalue

def TlvItem.content (item : TlvItem) : Nat × List UInt8 := (item.tag, item.value)

/-- Tags and values are visited one after another until a visit fails. -/
def visit (f : Nat → List UInt8 → σ → σ × Bool) : List (Nat × List UInt8) → σ → σ × Bool
  | [], s => (s, true)
  | item :: items, s =>
    match f item.1 item.2 s with
    | (s, false) => (s, false)
    | (s, true) => visit f items s

section

variable (f : Nat → List UInt8 → σ → σ × Bool)

include f

theorem visit_content (item : TlvItem) (items : List (Nat × List UInt8)) (s : σ) :
    visit f (item.content :: items) s =
      match f item.tag item.value s with
      | (s, false) => (s, false)
      | (s, true) => visit f items s := rfl

theorem walkTlv_end {body : List UInt8} {pos : Nat} (h : body.length ≤ pos) (s : σ) :
    walkTlv f body pos s = (s, true) := by
  rw [walkTlv, if_pos h]

/-- The item at a place is visited. -/
theorem walkTlv_item (before : List UInt8) (item : TlvItem) (after : List UInt8)
    (s : σ) :
    walkTlv f (before ++ (item.bytes ++ after)) before.length s =
      match f item.tag item.value s with
      | (s, false) => (s, false)
      | (s, true) => walkTlv f (before ++ (item.bytes ++ after)) (before ++ item.bytes).length s := by
  have htag := berOidTag_form item.tagForm before (item.lengthBytes ++ item.value ++ after)
  have hlength := berLength_form item.lengthForm (before ++ item.tagBytes) (item.value ++ after)
  have hpos := item.tagForm.pos
  have hbody : before ++ (item.tagBytes ++ (item.lengthBytes ++ item.value ++ after)) =
      before ++ (item.bytes ++ after) := by
    unfold TlvItem.bytes
    simp only [append_assoc]
  have hbody' : before ++ item.tagBytes ++ (item.lengthBytes ++ (item.value ++ after)) =
      before ++ (item.bytes ++ after) := by
    unfold TlvItem.bytes
    simp only [append_assoc]
  have hvalue : slice (before ++ (item.bytes ++ after)) (before.length + item.tagBytes.length + item.lengthBytes.length)
      item.value.length = item.value := by
    rw [← hbody', ← append_assoc (before ++ item.tagBytes)]
    exact slice_after (by rw [length_append, length_append]) rfl
  have hend : before.length + item.tagBytes.length + item.lengthBytes.length + item.value.length =
      (before ++ item.bytes).length := by
    unfold TlvItem.bytes
    simp only [length_append]
    omega
  have hroom : (before ++ item.bytes).length ≤ (before ++ (item.bytes ++ after)).length := by
    simp only [length_append]
    omega
  rw [hbody] at htag
  rw [hbody', length_append] at hlength
  have hstart : ¬ (before ++ (item.bytes ++ after)).length ≤ before.length := by
    unfold TlvItem.bytes
    simp only [length_append]
    omega
  rw [walkTlv, if_neg hstart]
  split
  · next hnone =>
    rw [htag] at hnone
    exact absurd hnone (Option.some_ne_none _)
  · next tag tagBytes hsome =>
    rw [htag] at hsome
    obtain ⟨rfl, rfl⟩ := Prod.mk.inj (Option.some.inj hsome)
    rw [hlength]
    dsimp only
    rw [hend, if_neg (Nat.not_lt.2 hroom), hvalue]

theorem walkTlv_items (items : List TlvItem) (before after : List UInt8) (s : σ) :
    walkTlv f (before ++ (items.flatMap TlvItem.bytes ++ after)) before.length s =
      match visit f (items.map TlvItem.content) s with
      | (s, false) => (s, false)
      | (s, true) => walkTlv f (before ++ (items.flatMap TlvItem.bytes ++ after))
          (before ++ items.flatMap TlvItem.bytes).length s := by
  induction items generalizing before s with
  | nil =>
    rw [flatMap_nil, append_nil]
    rfl
  | cons item items ih =>
    have hsplit : before ++ ((item :: items).flatMap TlvItem.bytes ++ after) =
        before ++ (item.bytes ++ (items.flatMap TlvItem.bytes ++ after)) := by
      rw [flatMap_cons, append_assoc]
    have hsplit' : before ++ (item.bytes ++ (items.flatMap TlvItem.bytes ++ after)) =
        before ++ item.bytes ++ (items.flatMap TlvItem.bytes ++ after) := (append_assoc _ _ _).symm
    rw [hsplit, walkTlv_item, map_cons, visit_content]
    cases hvisit : f item.tag item.value s with
    | mk s' ok =>
      cases ok with
      | false => rfl
      | true =>
        dsimp only
        rw [hsplit', ih (before ++ item.bytes) s', flatMap_cons, append_assoc before item.bytes
          (items.flatMap TlvItem.bytes)]

end

/-- No whole item stands at the front. -/
def NoItem (rest : List UInt8) : Prop := ∀ (item : TlvItem) (after : List UInt8), rest ≠ item.bytes ++ after

/-- At a place, an item is visited or none is. -/
theorem walkTlv_cases (before rest : List UInt8) (hrest : rest ≠ []) :
    (∃ item after, rest = TlvItem.bytes item ++ after) ∨
      NoItem rest ∧ ∀ (σ : Type) (f : Nat → List UInt8 → σ → σ × Bool) (s : σ),
        walkTlv f (before ++ rest) before.length s = (s, false) := by
  by_cases hitem : ∃ item after, rest = TlvItem.bytes item ++ after
  · exact Or.inl hitem
  · refine Or.inr ⟨fun item after heq => hitem ⟨item, after, heq⟩, fun σ f s => ?_⟩
    have hlength : ¬ (before ++ rest).length ≤ before.length := by
      have := List.length_pos_iff.2 hrest
      rw [length_append]
      omega
    rw [walkTlv, if_neg hlength]
    split
    · rfl
    · next tag tagBytes htag =>
      obtain ⟨tagBytes, afterTag, hdrop, htagForm, rfl⟩ := form_of_berOidTag htag
      rw [drop_left] at hdrop
      subst hdrop
      split
      · rfl
      · next len lenBytes hlen =>
        obtain ⟨lengthBytes, afterLength, hdrop, hlengthForm, rfl⟩ := form_of_berLength hlen
        rw [← append_assoc, ← length_append, drop_left] at hdrop
        subst hdrop
        by_cases hroom : (before ++ (tagBytes ++ (lengthBytes ++ afterLength))).length <
            before.length + tagBytes.length + lengthBytes.length + len
        · rw [if_pos hroom]
        · -- The value is whole, so a whole item stands there.
          have hvalue : (afterLength.take len).length = len := by
            simp only [length_append] at hroom
            rw [length_take]
            omega
          have hform : BerForm lengthBytes (afterLength.take len).length := by rwa [hvalue]
          refine absurd ⟨⟨tag, afterLength.take len, tagBytes, lengthBytes, htagForm, hform⟩,
            afterLength.drop len, ?_⟩ hitem
          unfold TlvItem.bytes
          simp only [append_assoc, take_append_drop]

theorem exists_items (rest : List UInt8) :
    ∃ (items : List TlvItem) (after : List UInt8), rest = items.flatMap TlvItem.bytes ++ after ∧ NoItem after := by
  induction hn : rest.length using Nat.strong_induction_on generalizing rest with
  | _ n ih =>
    by_cases hitem : ∃ item after, rest = TlvItem.bytes item ++ after
    · obtain ⟨item, after, rfl⟩ := hitem
      have hlt : after.length < n := by
        have hpos := item.tagForm.pos
        rw [← hn]
        unfold TlvItem.bytes
        simp only [length_append]
        omega
      obtain ⟨items, last, rfl, hlast⟩ := ih after.length hlt after rfl
      exact ⟨item :: items, last, by rw [flatMap_cons, append_assoc], hlast⟩
    · exact ⟨[], rest, rfl, fun item after heq => hitem ⟨item, after, heq⟩⟩

theorem walkTlv_body (body : List UInt8) :
    ∃ (items : List TlvItem) (rest : List UInt8), body = items.flatMap TlvItem.bytes ++ rest ∧ NoItem rest ∧
      ∀ (σ : Type) (f : Nat → List UInt8 → σ → σ × Bool) (s : σ), walkTlv f body 0 s =
          ((visit f (items.map TlvItem.content) s).1, (visit f (items.map TlvItem.content) s).2 && rest.isEmpty) := by
  obtain ⟨items, rest, rfl, hrest⟩ := exists_items body
  refine ⟨items, rest, rfl, hrest, fun σ f s => ?_⟩
  have hwalk := walkTlv_items f items [] rest s
  rw [nil_append, nil_append, length_nil] at hwalk
  rw [hwalk]
  cases hvisit : visit f (items.map TlvItem.content) s with
  | mk s' ok =>
    cases ok with
    | false => rfl
    | true =>
      dsimp only
      by_cases hnil : rest = []
      · subst hnil
        rw [append_nil, walkTlv_end f le_rfl]
        rfl
      · rcases walkTlv_cases (items.flatMap TlvItem.bytes) rest hnil with ⟨item, after, heq⟩ | ⟨-, hstop⟩
        · exact absurd heq (hrest item after)
        · rw [hstop σ f s', Bool.true_and]
          cases rest with
          | nil => exact absurd rfl hnil
          | cons => rfl

/-! ## Packets -/

/-- A packet: a key with the SMPTE prefix, a length and a value. -/
structure KlvPacket where
  key : List UInt8
  value : List UInt8
  lengthBytes : List UInt8
  key_length : key.length = 16
  key_starts : key.take 4 = smptePrefix
  lengthForm : BerForm lengthBytes value.length

def KlvPacket.bytes (packet : KlvPacket) : List UInt8 := packet.key ++ (packet.lengthBytes ++ packet.value)

theorem KlvPacket.length_bytes (packet : KlvPacket) :
    packet.bytes.length = packet.value.length + (16 + packet.lengthBytes.length) := by
  unfold KlvPacket.bytes
  rw [length_append, length_append, packet.key_length]
  omega

theorem splitKlvPackets_packet (packet : KlvPacket) (rest : List UInt8) :
    splitKlvPackets (packet.bytes ++ rest) = packet.bytes :: splitKlvPackets rest := by
  have hpos := packet.lengthForm.pos
  have hlength := packet.length_bytes
  have hbody : packet.key ++ (packet.lengthBytes ++ (packet.value ++ rest)) = packet.bytes ++ rest := by
    unfold KlvPacket.bytes
    simp only [append_assoc]
  have hread := berLength_form packet.lengthForm packet.key (packet.value ++ rest)
  have hstarts : (packet.bytes ++ rest).take 4 = smptePrefix := by
    rw [← hbody, take_append_of_le_length (by rw [packet.key_length]; omega), packet.key_starts]
  rw [hbody, packet.key_length] at hread
  rw [splitKlvPackets, if_pos ⟨by rw [length_append]; omega, hstarts⟩, hread]
  dsimp only
  rw [← hlength, if_neg (by rw [length_append]; omega), take_left, drop_left]

theorem splitKlvPackets_packets (packets : List KlvPacket) (rest : List UInt8) :
    splitKlvPackets (packets.flatMap KlvPacket.bytes ++ rest) = packets.map KlvPacket.bytes ++ splitKlvPackets rest := by
  induction packets with
  | nil => rfl
  | cons packet packets ih =>
    rw [flatMap_cons, append_assoc, splitKlvPackets_packet, ih]
    rfl

/-- No whole packet stands at the front. -/
def NoPacket (rest : List UInt8) : Prop := ∀ (packet : KlvPacket) (after : List UInt8), rest ≠ packet.bytes ++ after

theorem splitKlvPackets_none {rest : List UInt8} (h : NoPacket rest) : splitKlvPackets rest = [] := by
  rw [splitKlvPackets]
  split_ifs with hstarts
  · split
    · rfl
    · next len lenBytes hlen =>
      obtain ⟨lengthBytes, after, hdrop, hform, rfl⟩ := form_of_berLength hlen
      by_cases hroom : rest.length < len + (16 + lengthBytes.length)
      · rw [if_pos hroom]
      · -- The value is whole, so a whole packet stands there.
        have hkey : (rest.take 16).length = 16 := by
          rw [length_take]
          omega
        have hafter := congrArg List.length hdrop
        rw [length_drop, length_append] at hafter
        have hvalue : (after.take len).length = len := by
          rw [length_take]
          omega
        have hform' : BerForm lengthBytes (after.take len).length := by rwa [hvalue]
        have hmark : (rest.take 16).take 4 = smptePrefix := by
          rw [take_take, Nat.min_eq_left (by decide), hstarts.2]
        refine absurd ?_ (h ⟨rest.take 16, after.take len, lengthBytes, hkey, hmark, hform'⟩ (after.drop len))
        unfold KlvPacket.bytes
        simp only [append_assoc, take_append_drop]
        rw [← hdrop, take_append_drop]
  · rfl

theorem splitKlvPackets_body (buf : List UInt8) :
    ∃ (packets : List KlvPacket) (rest : List UInt8), buf = packets.flatMap KlvPacket.bytes ++ rest ∧ NoPacket rest ∧
      splitKlvPackets buf = packets.map KlvPacket.bytes := by
  induction hn : buf.length using Nat.strong_induction_on generalizing buf with
  | _ n ih =>
    by_cases hpacket : ∃ packet after, buf = KlvPacket.bytes packet ++ after
    · obtain ⟨packet, after, rfl⟩ := hpacket
      have hlt : after.length < n := by
        rw [← hn, length_append, packet.length_bytes]
        omega
      obtain ⟨packets, rest, rfl, hrest, hsplit⟩ := ih after.length hlt after rfl
      refine ⟨packet :: packets, rest, by rw [flatMap_cons, append_assoc], hrest, ?_⟩
      rw [splitKlvPackets_packet, hsplit]
      rfl
    · have hnone : NoPacket buf := fun packet after heq => hpacket ⟨packet, after, heq⟩
      exact ⟨[], buf, rfl, hnone, splitKlvPackets_none hnone⟩

/-! ## The coding -/

/-- Items and packets come back as they were written, from any buffer no other items and packets come, and these stand one
after another from its front. -/
theorem klv_coding : (∀ (len : Nat) (before after : List UInt8), len < 2 ^ 32 →
      berLength (before ++ (pushBerLength len ++ after)) before.length = some (len, (pushBerLength len).length)) ∧
    (∀ (tag : Nat) (before after : List UInt8), tag ≤ berOidMax →
      berOidTag (before ++ (pushBerOid tag ++ after)) before.length = some (tag, (pushBerOid tag).length)) ∧
    (∀ (σ : Type) (f : Nat → List UInt8 → σ → σ × Bool) (items : List (Nat × List UInt8)) (s : σ),
      (∀ item ∈ items, item.1 ≤ berOidMax ∧ item.2.length < 2 ^ 32) →
      walkTlv f (items.flatMap fun item => pushBerOid item.1 ++ (pushBerLength item.2.length ++ item.2)) 0 s =
        visit f items s) ∧ (∀ (packets : List KlvPacket) (tail : List UInt8), NoPacket tail →
      splitKlvPackets (packets.flatMap KlvPacket.bytes ++ tail) = packets.map KlvPacket.bytes) ∧
    (∀ body : List UInt8, ∃ (items : List TlvItem) (rest : List UInt8),
      body = items.flatMap TlvItem.bytes ++ rest ∧ NoItem rest ∧
      ∀ (σ : Type) (f : Nat → List UInt8 → σ → σ × Bool) (s : σ), walkTlv f body 0 s =
        ((visit f (items.map TlvItem.content) s).1, (visit f (items.map TlvItem.content) s).2 && rest.isEmpty)) ∧
    ∀ buf : List UInt8, ∃ (packets : List KlvPacket) (rest : List UInt8),
      buf = packets.flatMap KlvPacket.bytes ++ rest ∧ NoPacket rest ∧
      splitKlvPackets buf = packets.map KlvPacket.bytes := by
  refine ⟨fun len before after h => berLength_form (form_pushBerLength h) before after,
    fun tag before after h => berOidTag_form (form_pushBerOid h) before after, fun σ f items s h => ?_,
    fun packets tail h => ?_, walkTlv_body, splitKlvPackets_body⟩
  · have hitems : ∃ written : List TlvItem, written.map TlvItem.content = items ∧ written.flatMap TlvItem.bytes =
        items.flatMap fun item => pushBerOid item.1 ++ (pushBerLength item.2.length ++ item.2) := by
      induction items with
      | nil => exact ⟨[], rfl, rfl⟩
      | cons item items ih =>
        obtain ⟨hitem, hrest⟩ := List.forall_mem_cons.1 h
        obtain ⟨written, rfl, hbytes⟩ := ih hrest
        refine ⟨.pushed item.1 item.2 hitem.1 hitem.2 :: written, rfl, ?_⟩
        rw [flatMap_cons, flatMap_cons, hbytes]
        rfl
    obtain ⟨written, rfl, hbytes⟩ := hitems
    have hwalk := walkTlv_items f written [] [] s
    rw [nil_append, append_nil, nil_append, length_nil] at hwalk
    rw [← hbytes, hwalk]
    cases hvisit : visit f (written.map TlvItem.content) s with
    | mk s' ok =>
      cases ok with
      | false => rfl
      | true => exact walkTlv_end f le_rfl s'
  · rw [splitKlvPackets_packets, splitKlvPackets_none h, append_nil]

/-- A packet without a value. -/
def emptyPacket : KlvPacket where
  key := smptePrefix ++ List.replicate 12 0
  value := []
  lengthBytes := [0]
  key_length := rfl
  key_starts := rfl
  lengthForm := .short 0 (by decide)

theorem noPacket_byte (b : UInt8) : NoPacket [b] := by
  intro packet after heq
  have hlength := congrArg List.length heq
  rw [length_append, packet.length_bytes, length_singleton] at hlength
  omega

/-- Lengths on both sides of the short form, the largest tag, two items, and a packet before a byte. -/
theorem klv_coding_bounds :
    berLength (pushBerLength 127 ++ [1]) 0 = some (127, 1) ∧ berOidTag (pushBerOid berOidMax) 0 = some (berOidMax, 4) ∧
      walkTlv (fun tag value seen => (seen ++ [(tag, value)], true)) [1, 1, 7, 2, 0] 0 [] = ([(1, [7]), (2, [])], true) ∧
      splitKlvPackets (emptyPacket.bytes ++ [9]) = [emptyPacket.bytes] :=
  ⟨klv_coding.1 127 [] [1] (by decide), klv_coding.2.1 berOidMax [] [] le_rfl,
    klv_coding.2.2.1 _ (fun tag value seen => (seen ++ [(tag, value)], true)) [(1, [7]), (2, [])] [] (by decide),
    klv_coding.2.2.2.1 [emptyPacket] [9] (noPacket_byte 9)⟩

/-- A whole packet with a byte behind it is not itself a packet, and yet one comes of it. -/
theorem packet_in_tail : (∀ packet : KlvPacket, packet.bytes ≠ emptyPacket.bytes ++ [9]) ∧
      splitKlvPackets (emptyPacket.bytes ++ [9]) ≠ [] := by
  have hsplit := splitKlvPackets_packet emptyPacket [9]
  refine ⟨fun packet heq => ?_, fun hnil => ?_⟩
  · have hwhole := splitKlvPackets_packet packet []
    rw [append_nil, heq, hsplit] at hwhole
    have hlength := congrArg List.length (List.cons.inj hwhole).1
    rw [length_append] at hlength
    exact absurd hlength (Nat.ne_of_lt (Nat.lt_succ_self _))
  · rw [hsplit] at hnil
    exact cons_ne_nil _ _ hnil

end Glass2Glass.Klv
