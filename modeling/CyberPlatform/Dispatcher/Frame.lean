/-
**`pkt_router.c`, `is_ip_frame`: is this an IP frame?**

A data pointer is the list of the bytes that can be read from it on, and a load outside of them is
`Trap.outOfBounds`. The target is little-endian: a 16-bit load takes the low byte first, and
`ntohs` and `htons` swap the two.

The walk over the VLAN tags uses a struct of a priority/VLAN-id word followed by a protocol word.
It is laid over the frame at offset 12, where a protocol word stands, so the field `tpid` that the
walk looks at is the priority/VLAN-id word of each tag (offsets 14, 18, …), and the value it
compares with the IP types at the end is not swapped.

* `Reaches frame offset v` — the specification: `v` is the first 16-bit value that is not a VLAN
  protocol identifier, on the way from `offset` in steps of four bytes.
* `isIpFrame_cases` — what the code computes: it decides by `Reaches frame 14`, not by
  `Reaches frame 12`.
* `isIpFrame_correct_iff` — when that is the right answer.
* `isIpFrame_returns_iff` — when the code returns without a load outside the frame.
-/

import CyberPlatform.Foundation.Trap
import Mathlib.Data.List.Basic
import Mathlib.Tactic.Tauto

namespace CyberPlatform.Dispatcher

open Foundation

/-! ### The code -/

def ethAlen : Nat := 6
def sizeofVlanHdr : Nat := 4

def ethPktQinq1 : UInt16 := 0x9100
def ethPktQinq2 : UInt16 := 0x9200
def ethPktQinq3 : UInt16 := 0x9300
def ethPkt8021q : UInt16 := 0x8100
def ethPktIpv6 : UInt16 := 0x86DD
def ethPktIp : UInt16 := 0x0800

/-- `IS_QINQ` -/
abbrev isQinq (etherType : UInt16) : Prop :=
  ethPktQinq1 = etherType ∨ ethPktQinq2 = etherType ∨ ethPktQinq3 = etherType

/-- The 16-bit word whose bytes are `first` and `second` in memory, on a little-endian machine. -/
def word16 (first second : UInt8) : UInt16 := first.toUInt16 + 256 * second.toUInt16

/-- `*(uint16_t*)(p + offset)` -/
def load16 (p : List UInt8) (offset : Nat) : Except Trap UInt16 :=
  match p[offset]?, p[offset + 1]? with
  | some first, some second => .ok (word16 first second)
  | _, _ => .error .outOfBounds

/-- `ntohs` swaps the two bytes. -/
def ntohs (x : UInt16) : UInt16 := x % 256 * 256 + x / 256

/-- `htons` is the same swap. -/
def htons (x : UInt16) : UInt16 := ntohs x

/-- The field `tpid` of the `struct eth_vlan_hdr` at `pvlan`. -/
def tpid (frame : List UInt8) (pvlan : Nat) : Except Trap UInt16 := load16 frame (pvlan + 2)

/-- The loop `while (… pvlan->tpid …) pvlan += 1`. -/
def vlanLoop (frame : List UInt8) : Nat → Nat → Except Trap Nat
  | 0, _ => .error .endless
  | fuel + 1, pvlan => do
    let tag ← tpid frame pvlan
    if ethPkt8021q = htons tag ∨ isQinq (htons tag) then
      vlanLoop frame fuel (pvlan + sizeofVlanHdr)
    else return pvlan

/-- `is_ip_frame`. Every round of the loop moves on by four bytes, so as many rounds as the frame
has bytes leave it. -/
def isIpFrame (pFrame : List UInt8) : Except Trap UInt8 := do
  let ptr := 2 * ethAlen
  let etherType := ntohs (← load16 pFrame ptr)
  if etherType = ethPktIp ∨ etherType = ethPktIpv6 then return 1
  if ¬ isQinq etherType ∧ etherType ≠ ethPkt8021q then return 0
  let pvlan ← vlanLoop pFrame (pFrame.length + 1) ptr
  let etherType ← tpid pFrame pvlan
  if etherType = ethPktIp ∨ etherType = ethPktIpv6 then return 1
  return 0

/-! ### The specification -/

/-- The big-endian 16-bit value at an offset, if the frame holds it. -/
def be16 (frame : List UInt8) (offset : Nat) : Option Nat :=
  match frame[offset]?, frame[offset + 1]? with
  | some high, some low => some (high.toNat * 256 + low.toNat)
  | _, _ => none

/-- The protocol identifiers of a VLAN tag. -/
def IsTpid (v : Nat) : Prop := v = 0x8100 ∨ v = 0x9100 ∨ v = 0x9200 ∨ v = 0x9300

instance : DecidablePred IsTpid := fun v =>
  inferInstanceAs (Decidable (v = 0x8100 ∨ v = 0x9100 ∨ v = 0x9200 ∨ v = 0x9300))

/-- The EtherTypes of IPv4 and IPv6. -/
def IsIp (v : Nat) : Prop := v = 0x0800 ∨ v = 0x86DD

instance : DecidablePred IsIp := fun v => inferInstanceAs (Decidable (v = 0x0800 ∨ v = 0x86DD))

/-- The EtherTypes of IPv4 and IPv6 with their bytes in the wrong order. -/
def IsSwappedIp (v : Nat) : Prop := v = 0x0008 ∨ v = 0xDD86

instance : DecidablePred IsSwappedIp := fun v =>
  inferInstanceAs (Decidable (v = 0x0008 ∨ v = 0xDD86))

/-- **The first value that is not a VLAN protocol identifier**, on the way from `offset` in steps of
four bytes, all of it inside the frame. -/
inductive Reaches (frame : List UInt8) : Nat → Nat → Prop
  | here {offset v : Nat} : be16 frame offset = some v → ¬ IsTpid v → Reaches frame offset v
  | tag {offset t v : Nat} : be16 frame offset = some t → IsTpid t →
      Reaches frame (offset + 4) v → Reaches frame offset v

/-! ### Bytes -/

theorem word16_toNat (first second : UInt8) :
    (word16 first second).toNat = second.toNat * 256 + first.toNat := by
  have := first.toNat_lt
  have := second.toNat_lt
  simp only [word16, UInt16.toNat_add, UInt16.toNat_mul, UInt8.toNat_toUInt16, UInt16.reduceToNat]
  omega

theorem ntohs_toNat (x : UInt16) : (ntohs x).toNat = x.toNat % 256 * 256 + x.toNat / 256 := by
  have := x.toNat_lt
  simp only [ntohs, UInt16.toNat_add, UInt16.toNat_mul, UInt16.toNat_mod, UInt16.toNat_div,
    UInt16.reduceToNat]
  omega

/-- A load followed by the swap is the big-endian value, and fails outside the frame. -/
theorem load16_eq (frame : List UInt8) (offset : Nat) :
    (∃ word, load16 frame offset = .ok word ∧ be16 frame offset = some (ntohs word).toNat) ∨
      load16 frame offset = .error .outOfBounds ∧ be16 frame offset = none := by
  unfold load16 be16
  cases frame[offset]? with
  | none => exact .inr ⟨rfl, rfl⟩
  | some first =>
    cases frame[offset + 1]? with
    | none => exact .inr ⟨rfl, rfl⟩
    | some second =>
      refine .inl ⟨word16 first second, rfl, congrArg some ?_⟩
      have := first.toNat_lt
      have := second.toNat_lt
      rw [ntohs_toNat, word16_toNat]
      omega

theorem be16_isSome_iff (frame : List UInt8) (offset : Nat) :
    (∃ v, be16 frame offset = some v) ↔ offset + 2 ≤ frame.length := by
  unfold be16
  by_cases inside : offset + 2 ≤ frame.length
  · rw [List.getElem?_eq_getElem (by omega), List.getElem?_eq_getElem (by omega)]
    exact ⟨fun _ => inside, fun _ => ⟨_, rfl⟩⟩
  · refine ⟨fun ⟨v, found⟩ => ?_, fun inside' => absurd inside' inside⟩
    rw [List.getElem?_eq_none (by omega : frame.length ≤ offset + 1)] at found
    cases first : frame[offset]? <;> simp [first] at found

/-! ### Comparisons -/

theorem isIp_ntohs (x : UInt16) :
    (ntohs x = ethPktIp ∨ ntohs x = ethPktIpv6) ↔ IsIp (ntohs x).toNat := by
  simp only [IsIp, ← UInt16.toNat_inj, ethPktIp, ethPktIpv6, UInt16.reduceToNat]

theorem isTpid_ntohs (x : UInt16) :
    (ethPkt8021q = htons x ∨ isQinq (htons x)) ↔ IsTpid (ntohs x).toNat := by
  simp only [IsTpid, htons, isQinq, ← UInt16.toNat_inj, ethPkt8021q, ethPktQinq1, ethPktQinq2,
    ethPktQinq3, UInt16.reduceToNat]
  tauto

/-- The final comparison forgets the swap, so it looks for the swapped types. -/
theorem isSwappedIp_ntohs (x : UInt16) :
    (x = ethPktIp ∨ x = ethPktIpv6) ↔ IsSwappedIp (ntohs x).toNat := by
  have := x.toNat_lt
  rw [ntohs_toNat]
  simp only [IsSwappedIp, ← UInt16.toNat_inj, ethPktIp, ethPktIpv6, UInt16.reduceToNat]
  omega

/-! ### The walk -/

/-- A walk ends at no VLAN protocol identifier. -/
theorem Reaches.final {frame : List UInt8} {offset v : Nat} (reach : Reaches frame offset v) :
    ¬ IsTpid v := by
  induction reach with
  | here _ final => exact final
  | tag _ _ _ ih => exact ih

/-- A walk ends at one value only. -/
theorem Reaches.unique {frame : List UInt8} {offset v w : Nat} (reach : Reaches frame offset v) :
    Reaches frame offset w → v = w := by
  induction reach with
  | here found final =>
    intro other
    cases other with
    | here found' _ => exact Option.some.inj (found.symm.trans found')
    | tag found' tag _ => exact absurd (Option.some.inj (found.symm.trans found') ▸ tag) final
  | tag found tag _ ih =>
    intro other
    cases other with
    | here found' final => exact absurd (Option.some.inj (found.symm.trans found') ▸ tag) final
    | tag _ _ rest => exact ih rest

/-- **The loop of the code.** It ends at the tag word where the walk from two bytes further on ends,
or, when that walk leaves the frame, in a load outside of it. -/
theorem vlanLoop_eq (frame : List UInt8) : ∀ (fuel pvlan : Nat), pvlan ≤ frame.length →
    frame.length < pvlan + 4 * fuel →
    (∃ last word, vlanLoop frame fuel pvlan = .ok last ∧ tpid frame last = .ok word ∧
        Reaches frame (pvlan + 2) (ntohs word).toNat) ∨
      vlanLoop frame fuel pvlan = .error .outOfBounds ∧ ∀ v, ¬ Reaches frame (pvlan + 2) v := by
  intro fuel
  induction fuel with
  | zero => exact fun pvlan inside enough => absurd enough (by omega)
  | succ fuel ih =>
    intro pvlan _ enough
    rw [vlanLoop]
    rcases load16_eq frame (pvlan + 2) with ⟨word, loaded, found⟩ | ⟨failed, missing⟩
    · rw [tpid, loaded, ok_bind]
      by_cases tag : IsTpid (ntohs word).toNat
      · rw [if_pos ((isTpid_ntohs word).mpr tag)]
        have inside := (be16_isSome_iff frame (pvlan + 2)).mp ⟨_, found⟩
        rcases ih (pvlan + 4) (by omega) (by omega) with
          ⟨last, final, ran, stored, reach⟩ | ⟨ran, astray⟩
        · exact .inl ⟨last, final, ran, stored, .tag found tag reach⟩
        · refine .inr ⟨ran, fun v reach => ?_⟩
          cases reach with
          | here found' final => exact final (Option.some.inj (found.symm.trans found') ▸ tag)
          | tag _ _ rest => exact astray v rest
      · rw [if_neg (fun test => tag ((isTpid_ntohs word).mp test))]
        exact .inl ⟨pvlan, word, rfl, loaded, .here found tag⟩
    · rw [tpid, failed, error_bind]
      refine .inr ⟨rfl, fun v reach => ?_⟩
      cases reach with
      | here found _ => rw [missing] at found; cases found
      | tag found _ _ => rw [missing] at found; cases found

/-! ### The whole function -/

theorem not_isTpid_of_isIp {v : Nat} (ip : IsIp v) : ¬ IsTpid v := by
  unfold IsIp at ip
  unfold IsTpid
  omega

/-- **What `is_ip_frame` does.** An untagged frame is decided by its EtherType. A tagged one is
decided by the end of the walk from offset 14, compared with the swapped IP types. A load outside
the frame happens when the EtherType is outside, or when that walk leaves the frame. -/
theorem isIpFrame_cases (frame : List UInt8) :
    (be16 frame 12 = none ∧ isIpFrame frame = .error .outOfBounds) ∨
    (∃ t, be16 frame 12 = some t ∧ ¬ IsTpid t ∧
      isIpFrame frame = .ok (if IsIp t then 1 else 0)) ∨
    (∃ t tci, be16 frame 12 = some t ∧ IsTpid t ∧ Reaches frame 14 tci ∧
      isIpFrame frame = .ok (if IsSwappedIp tci then 1 else 0)) ∨
    ∃ t, be16 frame 12 = some t ∧ IsTpid t ∧ (∀ tci, ¬ Reaches frame 14 tci) ∧
      isIpFrame frame = .error .outOfBounds := by
  have start : isIpFrame frame = load16 frame 12 >>= fun word =>
      if ntohs word = ethPktIp ∨ ntohs word = ethPktIpv6 then .ok 1
      else if ¬ isQinq (ntohs word) ∧ ntohs word ≠ ethPkt8021q then .ok 0
      else vlanLoop frame (frame.length + 1) 12 >>= fun pvlan => tpid frame pvlan >>= fun final =>
        if final = ethPktIp ∨ final = ethPktIpv6 then .ok 1 else .ok 0 := rfl
  rw [start]
  rcases load16_eq frame 12 with ⟨word, loaded, found⟩ | ⟨failed, missing⟩
  · rw [loaded, ok_bind, found]
    by_cases ip : IsIp (ntohs word).toNat
    · rw [if_pos ((isIp_ntohs word).mpr ip)]
      exact .inr (.inl ⟨_, rfl, not_isTpid_of_isIp ip, by rw [if_pos ip]⟩)
    rw [if_neg fun test => ip ((isIp_ntohs word).mp test)]
    have untagged : (¬ isQinq (ntohs word) ∧ ntohs word ≠ ethPkt8021q) ↔
        ¬ IsTpid (ntohs word).toNat := by
      rw [← isTpid_ntohs, htons, eq_comm (a := ethPkt8021q)]
      tauto
    by_cases tag : IsTpid (ntohs word).toNat
    · rw [if_neg fun test => (untagged.mp test) tag]
      have inside := (be16_isSome_iff frame 12).mp ⟨_, found⟩
      rcases vlanLoop_eq frame (frame.length + 1) 12 (by omega) (by omega) with
        ⟨last, final, ran, stored, reach⟩ | ⟨ran, astray⟩
      · rw [ran, ok_bind, stored, ok_bind]
        refine .inr (.inr (.inl ⟨_, _, rfl, tag, reach, ?_⟩))
        by_cases swapped : IsSwappedIp (ntohs final).toNat
        · rw [if_pos swapped, if_pos ((isSwappedIp_ntohs final).mpr swapped)]
        · rw [if_neg swapped, if_neg fun test => swapped ((isSwappedIp_ntohs final).mp test)]
      · rw [ran, error_bind]
        exact .inr (.inr (.inr ⟨_, rfl, tag, astray, rfl⟩))
    · rw [if_pos (untagged.mpr tag)]
      exact .inr (.inl ⟨_, rfl, tag, by rw [if_neg ip]⟩)
  · rw [failed, error_bind]
    exact .inl ⟨missing, rfl⟩

/-- **When the verdict is right.** On a frame that holds its tag chain and final EtherType `v`, the
code returns the verdict on `v` exactly when the frame is untagged, or the first priority/VLAN-id
word that is not itself a VLAN protocol identifier lies in the frame and reads as a byte-swapped IP
type exactly when `v` is an IP type. -/
theorem isIpFrame_correct_iff (frame : List UInt8) (v : Nat) (chain : Reaches frame 12 v) :
    (∃ r, isIpFrame frame = .ok r ∧ (r = 1 ↔ IsIp v)) ↔
      be16 frame 12 = some v ∨ ∃ tci, Reaches frame 14 tci ∧ (IsSwappedIp tci ↔ IsIp v) := by
  have tagged : ∀ t, be16 frame 12 = some t → IsTpid t → be16 frame 12 ≠ some v := by
    intro t found tag found'
    exact chain.final (Option.some.inj (found.symm.trans found') ▸ tag)
  rcases isIpFrame_cases frame with ⟨missing, _⟩ | ⟨t, found, plain, ran⟩ |
    ⟨t, tci, found, tag, reach, ran⟩ | ⟨t, found, tag, astray, ran⟩
  · cases chain with
    | here found _ => rw [missing] at found; cases found
    | tag found _ _ => rw [missing] at found; cases found
  · have same : t = v := (Reaches.here found plain).unique chain
    subst same
    refine ⟨fun _ => .inl found, fun _ => ⟨_, ran, ?_⟩⟩
    split_ifs with ip <;> simp [ip]
  · rw [ran]
    constructor
    · rintro ⟨r, same, right⟩
      obtain rfl := Except.ok.inj same
      refine .inr ⟨tci, reach, ?_⟩
      rw [← right]
      split_ifs with swapped <;> simp [swapped]
    · rintro (found' | ⟨tci', reach', right⟩)
      · exact absurd found' (tagged t found tag)
      · refine ⟨_, rfl, ?_⟩
        rw [← right, ← reach.unique reach']
        split_ifs with swapped <;> simp [swapped]
  · rw [ran]
    constructor
    · rintro ⟨_, same, _⟩
      cases same
    · rintro (found' | ⟨tci, reach, _⟩)
      · exact absurd found' (tagged t found tag)
      · exact absurd reach (astray tci)

/-- A tagged ARP frame, on VLAN 1. -/
theorem isIpFrame_correct_arp :
    ∃ r, isIpFrame (List.replicate 12 0 ++ [0x81, 0x00, 0x00, 0x01, 0x08, 0x06]) = .ok r ∧
      (r = 1 ↔ IsIp 0x0806) := by
  have chain : Reaches (List.replicate 12 0 ++ [0x81, 0x00, 0x00, 0x01, 0x08, 0x06]) 12 0x0806 :=
    .tag (t := 0x8100) rfl (by decide) (.here rfl (by decide))
  exact (isIpFrame_correct_iff _ _ chain).mpr
    (.inr ⟨0x0001, .here rfl (by decide), by decide⟩)

/-- A tagged IPv4 frame, on VLAN 1, is taken for no IP frame. -/
theorem isIpFrame_misses_tagged_ip :
    Reaches (List.replicate 12 0 ++ [0x81, 0x00, 0x00, 0x01, 0x08, 0x00]) 12 0x0800 ∧
      IsIp 0x0800 ∧
      isIpFrame (List.replicate 12 0 ++ [0x81, 0x00, 0x00, 0x01, 0x08, 0x00]) = .ok 0 :=
  ⟨.tag (t := 0x8100) rfl (by decide) (.here rfl (by decide)), by decide, rfl⟩

/-- **When the function returns**, having read inside the frame only: the frame has room for an
EtherType, and if that is a VLAN identifier, one of the words at offsets 14, 18, … inside the frame
is none. -/
theorem isIpFrame_returns_iff (frame : List UInt8) :
    (∃ r, isIpFrame frame = .ok r) ↔
      ∃ t, be16 frame 12 = some t ∧ (IsTpid t → ∃ tci, Reaches frame 14 tci) := by
  rcases isIpFrame_cases frame with ⟨missing, ran⟩ | ⟨t, found, plain, ran⟩ |
    ⟨t, tci, found, _, reach, ran⟩ | ⟨t, found, tag, astray, ran⟩
  · rw [ran, missing]
    simp
  · rw [ran]
    exact ⟨fun _ => ⟨t, found, fun tag => absurd tag plain⟩, fun _ => ⟨_, rfl⟩⟩
  · rw [ran]
    exact ⟨fun _ => ⟨t, found, fun _ => ⟨tci, reach⟩⟩, fun _ => ⟨_, rfl⟩⟩
  · rw [ran]
    refine ⟨fun ⟨_, same⟩ => (by cases same), fun ⟨t', found', walks⟩ => ?_⟩
    obtain rfl := Option.some.inj (found.symm.trans found')
    obtain ⟨tci, reach⟩ := walks tag
    exact absurd reach (astray tci)

/-- A frame of 60 bytes, all VLAN identifiers behind its addresses, is read beyond its end. -/
theorem isIpFrame_reads_outside :
    let frame : List UInt8 := List.replicate 12 0 ++ (List.replicate 24 [0x81, 0x00]).flatten
    frame.length = 60 ∧ isIpFrame frame = .error .outOfBounds :=
  ⟨rfl, rfl⟩

end CyberPlatform.Dispatcher
