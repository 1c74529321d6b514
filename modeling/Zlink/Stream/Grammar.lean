import Mathlib.Data.List.GetD
import Zlink.Lib.Delimited
import Zlink.Protocol.Wire

/-!
# The packet grammar of a stream socket

A packet is a 16-bit header length, a 32-bit body length, the header and the body. With a
positive `maxmsgsize` a packet whose parts are longer together is refused as soon as its
two lengths are known. `reference` reads a byte stream by this grammar alone.
-/

namespace Zlink.Stream

open Protocol Delimited

structure Packet where
  header : List UInt8
  body : List UInt8

def prefixSize : ℕ := 6

def Packet.encode (packet : Packet) : List UInt8 :=
  putUint16 (UInt16.ofNat packet.header.length) ++
    putUint32 (UInt32.ofNat packet.body.length) ++ packet.header ++ packet.body

def headerLength (bytes : List UInt8) : ℕ :=
  (getUint16 bytes).toNat

def bodyLength (bytes : List UInt8) : ℕ :=
  (getUint32 (bytes.drop 2)).toNat

def Oversize (maxmsgsize : ℤ) (headerSize bodySize : ℕ) : Prop :=
  0 < maxmsgsize ∧ maxmsgsize < (headerSize + bodySize : ℕ)

instance (maxmsgsize : ℤ) (headerSize bodySize : ℕ) :
    Decidable (Oversize maxmsgsize headerSize bodySize) :=
  inferInstanceAs (Decidable (_ ∧ _))

/-- Cut one packet off the front. -/
def next (maxmsgsize : ℤ) (bytes : List UInt8) : Found UInt8 Packet Errno :=
  if bytes.length < prefixSize then .more
  else if Oversize maxmsgsize (headerLength bytes) (bodyLength bytes) then .bad .emsgsize
  else if bytes.length < prefixSize + headerLength bytes + bodyLength bytes then .more
  else
    .frame
      { header := (bytes.drop prefixSize).take (headerLength bytes)
        body := (bytes.drop (prefixSize + headerLength bytes)).take (bodyLength bytes) }
      (bytes.drop (prefixSize + headerLength bytes + bodyLength bytes))

variable {maxmsgsize : ℤ} {bytes rest : List UInt8} {packet : Packet}

theorem headerLength_append (h : prefixSize ≤ bytes.length) (ys : List UInt8) :
    headerLength (bytes ++ ys) = headerLength bytes := by
  have hlen : 6 ≤ bytes.length := h
  rw [headerLength, headerLength, getUint16, getUint16,
    List.getD_append _ _ _ _ (by omega), List.getD_append _ _ _ _ (by omega)]

theorem bodyLength_append (h : prefixSize ≤ bytes.length) (ys : List UInt8) :
    bodyLength (bytes ++ ys) = bodyLength bytes := by
  have hlen : 6 ≤ bytes.length := h
  have hdrop : 4 ≤ (bytes.drop 2).length := by
    rw [List.length_drop]
    exact Nat.le_sub_of_add_le hlen
  rw [bodyLength, bodyLength, List.drop_append_of_le_length (by omega), getUint32, getUint32,
    List.getD_append _ _ _ _ (by omega), List.getD_append _ _ _ _ (by omega),
    List.getD_append _ _ _ _ (by omega), List.getD_append _ _ _ _ (by omega)]

theorem next_of_short (h : bytes.length < prefixSize) : next maxmsgsize bytes = .more := by
  rw [next, if_pos h]

theorem next_of_oversize (h : prefixSize ≤ bytes.length)
    (hover : Oversize maxmsgsize (headerLength bytes) (bodyLength bytes)) :
    next maxmsgsize bytes = .bad .emsgsize := by
  rw [next, if_neg (Nat.not_lt.mpr h), if_pos hover]

theorem next_of_begun (hover : ¬ Oversize maxmsgsize (headerLength bytes) (bodyLength bytes))
    (h : bytes.length < prefixSize + headerLength bytes + bodyLength bytes) :
    next maxmsgsize bytes = .more := by
  by_cases hshort : bytes.length < prefixSize
  · exact next_of_short hshort
  · rw [next, if_neg hshort, if_neg hover, if_pos h]

theorem next_of_whole (hover : ¬ Oversize maxmsgsize (headerLength bytes) (bodyLength bytes))
    (h : prefixSize + headerLength bytes + bodyLength bytes ≤ bytes.length) :
    next maxmsgsize bytes =
      .frame
        { header := (bytes.drop prefixSize).take (headerLength bytes)
          body := (bytes.drop (prefixSize + headerLength bytes)).take (bodyLength bytes) }
        (bytes.drop (prefixSize + headerLength bytes + bodyLength bytes)) := by
  rw [next, if_neg (by omega), if_neg hover, if_neg (by omega)]

theorem next_parts {lengths header body : List UInt8} (hlengths : lengths.length = prefixSize)
    (hheader : headerLength lengths = header.length) (hbody : bodyLength lengths = body.length)
    (hsmall : ¬ Oversize maxmsgsize header.length body.length) :
    next maxmsgsize (lengths ++ header ++ body ++ rest) = .frame ⟨header, body⟩ rest := by
  have hhead : headerLength (lengths ++ header ++ body ++ rest) = header.length := by
    rw [List.append_assoc, List.append_assoc, headerLength_append hlengths.ge, hheader]
  have hbod : bodyLength (lengths ++ header ++ body ++ rest) = body.length := by
    rw [List.append_assoc, List.append_assoc, bodyLength_append hlengths.ge, hbody]
  have hlen : (lengths ++ header ++ body).length = prefixSize + header.length + body.length := by
    rw [List.length_append, List.length_append, hlengths]
  have hdrop : (lengths ++ header ++ body ++ rest).drop prefixSize = header ++ (body ++ rest) := by
    rw [List.append_assoc, List.append_assoc]
    exact List.drop_left' hlengths
  have hmid : (lengths ++ header ++ body ++ rest).drop (prefixSize + header.length) =
      body ++ rest := by
    rw [← List.drop_drop, hdrop, List.drop_left]
  have hend : (lengths ++ header ++ body ++ rest).drop
      (prefixSize + header.length + body.length) = rest :=
    List.drop_left' hlen
  have hwhole : prefixSize + headerLength (lengths ++ header ++ body ++ rest) +
      bodyLength (lengths ++ header ++ body ++ rest) ≤
        (lengths ++ header ++ body ++ rest).length := by
    rw [hhead, hbod, ← hlen, @List.length_append _ _ rest]
    exact Nat.le_add_right _ _
  rw [next_of_whole (by rw [hhead, hbod]; exact hsmall) hwhole, hhead, hbod, hdrop, hmid,
    hend, List.take_left, List.take_left]

theorem next_take (hover : ¬ Oversize maxmsgsize (headerLength bytes) (bodyLength bytes))
    (h : prefixSize + headerLength bytes + bodyLength bytes ≤ bytes.length) :
    next maxmsgsize (bytes.take (prefixSize + headerLength bytes + bodyLength bytes)) = .frame
        { header := (bytes.drop prefixSize).take (headerLength bytes)
          body := (bytes.drop (prefixSize + headerLength bytes)).take (bodyLength bytes) }
        [] := by
  have hlengths : (bytes.take prefixSize).length = prefixSize :=
    List.length_take_of_le (by omega)
  have hheader : ((bytes.drop prefixSize).take (headerLength bytes)).length = headerLength bytes :=
    List.length_take_of_le (by rw [List.length_drop]; omega)
  have hbody : ((bytes.drop (prefixSize + headerLength bytes)).take (bodyLength bytes)).length =
      bodyLength bytes :=
    List.length_take_of_le (by rw [List.length_drop]; omega)
  have hhead := headerLength_append hlengths.ge (bytes.drop prefixSize)
  have hbod := bodyLength_append hlengths.ge (bytes.drop prefixSize)
  rw [List.take_append_drop] at hhead hbod
  have hcut := @next_parts maxmsgsize [] (bytes.take prefixSize)
    ((bytes.drop prefixSize).take (headerLength bytes))
    ((bytes.drop (prefixSize + headerLength bytes)).take (bodyLength bytes)) hlengths
    (by rw [hheader, hhead]) (by rw [hbody, hbod]) (by rw [hheader, hbody]; exact hover)
  rw [List.append_nil, ← List.take_add, ← List.take_add] at hcut
  exact hcut

theorem next_cases (maxmsgsize : ℤ) (bytes : List UInt8) : next maxmsgsize bytes = .more ∨
      prefixSize ≤ bytes.length ∧ Oversize maxmsgsize (headerLength bytes) (bodyLength bytes) ∨
      ¬ Oversize maxmsgsize (headerLength bytes) (bodyLength bytes) ∧
        prefixSize + headerLength bytes + bodyLength bytes ≤ bytes.length := by
  by_cases hshort : bytes.length < prefixSize
  · exact .inl (next_of_short hshort)
  · by_cases hover : Oversize maxmsgsize (headerLength bytes) (bodyLength bytes)
    · exact .inr (.inl ⟨Nat.not_lt.mp hshort, hover⟩)
    · by_cases hbegun : bytes.length < prefixSize + headerLength bytes + bodyLength bytes
      · exact .inl (next_of_begun hover hbegun)
      · exact .inr (.inr ⟨hover, Nat.not_lt.mp hbegun⟩)

def format (maxmsgsize : ℤ) : Format UInt8 Packet Errno where
  next := next maxmsgsize
  shorter := by
    intro xs f rest h
    rcases next_cases maxmsgsize xs with hmore | ⟨hlen, hover⟩ | ⟨hover, hlen⟩
    · rw [hmore] at h
      cases h
    · rw [next_of_oversize hlen hover] at h
      cases h
    · rw [next_of_whole hover hlen] at h
      cases h
      have hpos : 0 < prefixSize := by decide
      rw [List.length_drop]
      omega
  frame_append := by
    intro xs f rest ys h
    rcases next_cases maxmsgsize xs with hmore | ⟨hlen, hover⟩ | ⟨hover, hlen⟩
    · rw [hmore] at h
      cases h
    · rw [next_of_oversize hlen hover] at h
      cases h
    · rw [next_of_whole hover hlen] at h
      cases h
      have hpre : prefixSize ≤ xs.length := by omega
      have hhead := headerLength_append hpre ys
      have hbody := bodyLength_append hpre ys
      have hlen' : prefixSize + headerLength (xs ++ ys) + bodyLength (xs ++ ys) ≤
          (xs ++ ys).length := by
        rw [hhead, hbody, List.length_append]
        omega
      rw [next_of_whole (by rw [hhead, hbody]; exact hover) hlen', hhead, hbody,
        List.drop_append_of_le_length hpre, List.drop_append_of_le_length (by omega),
        List.drop_append_of_le_length hlen,
        List.take_append_of_le_length (by rw [List.length_drop]; omega),
        List.take_append_of_le_length (by rw [List.length_drop]; omega)]
  bad_append := by
    intro xs e ys h
    rcases next_cases maxmsgsize xs with hmore | ⟨hlen, hover⟩ | ⟨hover, hlen⟩
    · rw [hmore] at h
      cases h
    · rw [next_of_oversize hlen hover] at h
      cases h
      refine next_of_oversize (by rw [List.length_append]; omega) ?_
      rw [headerLength_append hlen, bodyLength_append hlen]
      exact hover
    · rw [next_of_whole hover hlen] at h
      cases h

def reference (maxmsgsize : ℤ) (bytes : List UInt8) : List Packet × Ending UInt8 Errno :=
  (format maxmsgsize).parse bytes

theorem reference_of_more (h : next maxmsgsize bytes = .more) :
    reference maxmsgsize bytes = ([], .tail bytes) :=
  @Format.parse_of_more _ _ _ (format maxmsgsize) _ h

theorem reference_of_oversize (h : prefixSize ≤ bytes.length)
    (hover : Oversize maxmsgsize (headerLength bytes) (bodyLength bytes)) :
    reference maxmsgsize bytes = ([], .bad .emsgsize) :=
  @Format.parse_of_bad _ _ _ (format maxmsgsize) _ _ (next_of_oversize h hover)

theorem reference_of_frame (h : next maxmsgsize bytes = .frame packet rest) :
    reference maxmsgsize bytes =
      (packet :: (reference maxmsgsize rest).1, (reference maxmsgsize rest).2) :=
  @Format.parse_of_frame _ _ _ (format maxmsgsize) _ _ _ h

theorem reference_nil : reference maxmsgsize [] = ([], .tail []) :=
  reference_of_more (next_of_short (by decide))

/-- A packet that the two lengths can write and that `maxmsgsize` allows. -/
structure Packet.Fits (maxmsgsize : ℤ) (packet : Packet) : Prop where
  header : packet.header.length < 2 ^ 16
  body : packet.body.length < 2 ^ 32
  small : ¬ Oversize maxmsgsize packet.header.length packet.body.length

theorem Packet.headerLength_encode (h : packet.Fits maxmsgsize) (rest : List UInt8) :
    headerLength (packet.encode ++ rest) = packet.header.length := by
  rw [headerLength, encode, List.append_assoc, List.append_assoc, List.append_assoc,
    getUint16_putUint16_append, UInt16.toNat_ofNat_of_lt' h.header]

theorem Packet.bodyLength_encode (h : packet.Fits maxmsgsize) (rest : List UInt8) :
    bodyLength (packet.encode ++ rest) = packet.body.length := by
  rw [bodyLength, encode, List.append_assoc, List.append_assoc, List.append_assoc,
    List.drop_left' (putUint16_length _), getUint32_putUint32_append,
    UInt32.toNat_ofNat_of_lt' h.body]

theorem Packet.next_encode (h : packet.Fits maxmsgsize) (rest : List UInt8) :
    next maxmsgsize (packet.encode ++ rest) = .frame packet rest := by
  have hhead := Packet.headerLength_encode h []
  have hbody := Packet.bodyLength_encode h []
  have hlengths : (putUint16 (UInt16.ofNat packet.header.length) ++
      putUint32 (UInt32.ofNat packet.body.length)).length = prefixSize := rfl
  rw [List.append_nil, encode, List.append_assoc _ packet.header] at hhead hbody
  rw [headerLength_append hlengths.ge] at hhead
  rw [bodyLength_append hlengths.ge] at hbody
  exact next_parts hlengths hhead hbody h.small

theorem reference_flatMap_encode {packets : List Packet}
    (h : ∀ packet ∈ packets, packet.Fits maxmsgsize) :
    reference maxmsgsize (packets.flatMap Packet.encode) = (packets, .tail []) := by
  induction packets with
  | nil => exact reference_nil
  | cons packet packets ih =>
    have hcut := Packet.next_encode (h packet List.mem_cons_self) (packets.flatMap Packet.encode)
    have hrest := ih fun p hp => h p (List.mem_cons_of_mem _ hp)
    rw [List.flatMap_cons, reference_of_frame hcut, hrest]

end Zlink.Stream
