import NetSentry.Network.Equiv.HttpDirection

/-!
# Bytes behind an HTTP head

The parser reads a message up to the empty line that ends its head.  `parse_extend_iff`: what is
read from a packet with such a line does not depend on what follows, exactly where the packet is not
shorter than the sixteen bytes that the parser asks for before it looks at it.

* `take_headEnd_append`: what follows does not move the end of the head.
* `begins_append_iff`: nor does it make a message of what does not begin like one.
-/

namespace NetSentry.HttpParser

open Bytes Checked Search

/-- The data has a whole head: the empty line is in it. -/
def HasHead (data : Bytes) : Prop := (find (crlf ++ crlf) data).isSome

instance (data : Bytes) : Decidable (HasHead data) := inferInstanceAs (Decidable (_ = true))

/-- The packet would be taken for HTTP if it were sixteen bytes long. -/
def TooShort (packet : PacketInfo) : Prop :=
  packet.protocol = IPPROTO_TCP ∧ packet.data.length < 16 ∧
    (BeginsRequest packet.data ∨ BeginsResponse packet.data) ∧
    (IsHttpPort packet.sourcePort ∨ IsHttpPort packet.destPort)

instance (packet : PacketInfo) : Decidable (TooShort packet) :=
  inferInstanceAs (Decidable (_ ∧ _ ∧ (_ ∨ _) ∧ (_ ∨ _)))

variable {data : Bytes}

/-! ### The head -/

/-- The head ends where it ends without what follows, and inside the data. -/
theorem take_headEnd_append (h : HasHead data) (rest : Bytes) :
    (data ++ rest).take ((find (crlf ++ crlf) (data ++ rest)).getD (data ++ rest).length)
      = data.take ((find (crlf ++ crlf) data).getD data.length) := by
  obtain ⟨i, hi⟩ := Option.isSome_iff_exists.mp h
  have hle := find_add_length_le hi
  rw [find_append_of_some rest hi, hi, Option.getD_some, List.take_append_of_le_length (by omega),
    Option.getD_some]

theorem parseHttpRequest_append (h : HasHead data) (rest : Bytes) :
    parseHttpRequest (data ++ rest) = parseHttpRequest data := by
  unfold parseHttpRequest
  simp only [substr_of_le _ (Nat.zero_le _), List.drop_zero, bind_ok, take_headEnd_append h rest]

theorem parseHttpResponse_append (h : HasHead data) (rest : Bytes) :
    parseHttpResponse (data ++ rest) = parseHttpResponse data := by
  unfold parseHttpResponse
  simp only [substr_of_le _ (Nat.zero_le _), List.drop_zero, bind_ok, take_headEnd_append h rest]

/-! ### The beginning -/

/-- A text without a carriage return begins the data if it begins what the data is a part of. -/
theorem isPrefix_append_iff (h : HasHead data) {start : Bytes} (hstart : 13 ∉ start)
    (rest : Bytes) : start <+: data ++ rest ↔ start <+: data := by
  refine ⟨fun hprefix => ?_, fun hprefix => hprefix.trans (List.prefix_append _ _)⟩
  rcases List.prefix_or_prefix_of_prefix hprefix (List.prefix_append data rest) with hle | hle
  · exact hle
  · -- the empty line would be in the text
    obtain ⟨i, hi⟩ := Option.isSome_iff_exists.mp h
    have hline : crlf ++ crlf <:+: data :=
      (find_some hi).1.isInfix.trans (List.drop_suffix i data).isInfix
    have hmem : (13 : UInt8) ∈ crlf ++ crlf := by decide
    exact absurd (hle.subset (hline.subset hmem)) hstart

theorem begins_append_iff (h : HasHead data) (rest : Bytes) :
    BeginsRequest (data ++ rest) ∨ BeginsResponse (data ++ rest)
      ↔ BeginsRequest data ∨ BeginsResponse data := by
  have hmethods : ∀ method ∈ httpMethods, (13 : UInt8) ∉ method ++ space := by decide
  refine or_congr (exists_congr fun method => and_congr_right fun hmethod => ?_) ?_
  · exact isPrefix_append_iff h (hmethods method hmethod) rest
  · exact isPrefix_append_iff h (by decide) rest

/-! ### The packet -/

/-- The packet with more data. -/
def extend (packet : PacketInfo) (rest : Bytes) : PacketInfo :=
  { packet with data := packet.data ++ rest }

/-- **When the body does not matter.** -/
theorem parse_extend_iff (packet : PacketInfo) (h : HasHead packet.data) :
    (∀ rest, parse (extend packet rest) = parse packet) ↔ ¬ TooShort packet := by
  have haccepts : ∀ rest, isHttpPacket (extend packet rest) = true ↔
      packet.protocol = IPPROTO_TCP ∧ 16 ≤ packet.data.length + rest.length ∧
        (BeginsRequest packet.data ∨ BeginsResponse packet.data) := by
    intro rest
    rw [isHttpPacket_iff, ← List.length_append, ← begins_append_iff h rest]
    exact Iff.rfl
  constructor
  · rintro hsame ⟨hprotocol, hshort, hbegins, hports⟩
    have hrefused : ¬ Accepts packet := by
      intro haccept
      have hlength := (isHttpPacket_iff.mp haccept.1).2.1
      omega
    -- sixteen more bytes make it long enough
    have haccepted : Accepts (extend packet (List.replicate 16 0)) := by
      refine ⟨(haccepts _).mpr ⟨hprotocol, ?_, hbegins⟩, hports⟩
      rw [List.length_replicate]
      omega
    obtain ⟨data, hdata⟩ := parse_of_accepts haccepted
    rw [hsame, parse_of_not_accepts hrefused] at hdata
    cases hdata
  · intro hlong rest
    by_cases haccept : Accepts packet
    · obtain ⟨hprotocol, hlength, hbegins⟩ := isHttpPacket_iff.mp haccept.1
      have hextended := (haccepts rest).mpr ⟨hprotocol, Nat.le_add_right_of_le hlength, hbegins⟩
      unfold parse
      rw [hextended, haccept.1]
      simp only [extend, parseHttpRequest_append h rest, parseHttpResponse_append h rest]
    · have hrefused : ¬ Accepts (extend packet rest) := by
        rintro ⟨hextended, hports⟩
        obtain ⟨hprotocol, -, hbegins⟩ := (haccepts rest).mp hextended
        by_cases hlength : packet.data.length < 16
        · exact hlong ⟨hprotocol, hlength, hbegins, hports⟩
        · exact haccept ⟨isHttpPacket_iff.mpr ⟨hprotocol, not_lt.mp hlength, hbegins⟩, hports⟩
      rw [parse_of_not_accepts haccept, parse_of_not_accepts hrefused]

/-- A packet with a whole request. -/
def wholeRequest : PacketInfo :=
  tcpPacket 40000 80 (ascii "GET / HTTP/1.1\r\nHost: a\r\n\r\n")

theorem parse_extend_iff_wholeRequest :
    (∀ rest, parse (extend wholeRequest rest) = parse wholeRequest) ∧ ¬ TooShort wholeRequest := by
  have hlong : ¬ TooShort wholeRequest := by decide +kernel
  exact ⟨(parse_extend_iff wholeRequest (by decide +kernel)).mpr hlong, hlong⟩

end NetSentry.HttpParser
