import San2.Utils.CDataPack

/-!
# Capsules

A capsule is the datagram of the network layer. `CCapsule::pack` concatenates
destination address, source address, hop count, flags, application id and data;
`CCapsule::unpack` reads them back with its own offset arithmetic. Every node on
a path decodes and re-encodes a capsule, so both directions of the codec are
proved here for all field values and all byte strings.
-/

namespace San2

namespace Utils.Flag

/-- `setFlag`: a byte with a bit set or cleared. -/
def setFlag (flags : UInt8) (position : ℕ) (value : Bool) : UInt8 :=
  if value then flags ||| UInt8.ofNat (1 <<< position)
  else flags &&& ~~~ UInt8.ofNat (1 <<< position)

/-- `getFlag`: a bit of a byte. -/
def getFlag (flags : UInt8) (position : ℕ) : Bool :=
  (flags &&& UInt8.ofNat (1 <<< position)) ≠ 0

end Utils.Flag

namespace Network

open Utils

/-- `sanAddressSize` -/
abbrev sanAddressSize : ℕ := 32

/-- `sanHashSize`, the length of an application id. -/
abbrev sanHashSize : ℕ := 20

/-- `SanAddress` -/
abbrev SanAddress := FixedBytes sanAddressSize

/-- `SanApplicationId` -/
abbrev SanApplicationId := FixedBytes sanHashSize

/-- `SAN_FLAGPOS_DX_POSITION` -/
def flagposDX : ℕ := 0

/-- `SAN_FLAGPOS_DS_POSITION` -/
def flagposDS : ℕ := 1

/-- The members of a `CCapsule` object. The class has no constructor, so a new
object holds whatever its memory held before. -/
structure CCapsule where
  /-- Destination eXecute. -/
  flagDX : Bool
  /-- Destination Send. -/
  flagDS : Bool
  /-- Used on the local host only; never packed. -/
  interfaceAddress : SanAddress
  srcAddress : SanAddress
  dstAddress : SanAddress
  appId : SanApplicationId
  hop : UInt16
  data : Bytes
  deriving DecidableEq

namespace CCapsule

/-- `CCapsule::setSourceAddress` -/
def setSourceAddress (c : CCapsule) (srcAddress : SanAddress) : CCapsule :=
  { c with srcAddress := srcAddress }

/-- `CCapsule::setDestinationAddress` -/
def setDestinationAddress (c : CCapsule) (dstAddress : SanAddress) : CCapsule :=
  { c with dstAddress := dstAddress }

/-- `CCapsule::setFromInterfaceAddress` -/
def setFromInterfaceAddress (c : CCapsule) (interfaceAddress : SanAddress) : CCapsule :=
  { c with interfaceAddress := interfaceAddress }

/-- `CCapsule::setHop` -/
def setHop (c : CCapsule) (hop : UInt16) : CCapsule := { c with hop := hop }

/-- `CCapsule::setDX` -/
def setDX (c : CCapsule) (dx : Bool) : CCapsule := { c with flagDX := dx }

/-- `CCapsule::setApplicationId` -/
def setApplicationId (c : CCapsule) (appId : SanApplicationId) : CCapsule :=
  { c with appId := appId }

/-- `CCapsule::setData` -/
def setData (c : CCapsule) (data : Bytes) : CCapsule := { c with data := data }

/-- `CCapsule::setDS` -/
def setDS (c : CCapsule) (ds : Bool) : CCapsule := { c with flagDS := ds }

/-- `CCapsule::setDSdata`: the ports in front of the data. -/
def setDSdata (host : ByteOrder) (c : CCapsule) (dstport srcport : UInt16) (data : Bytes) :
    CCapsule :=
  { c.setDS true with
    data := CDataPack.packUint16 host dstport ++ CDataPack.packUint16 host srcport ++ data }

/-- The bytes of the hop count, as `pack` writes them. -/
def hop2bytes (host : ByteOrder) (hop : UInt16) : Bytes :=
  host.store 2 (Endian.sanUHtobe16 host hop).toNat

/-- `CCapsule::constructFlags` -/
def constructFlags (c : CCapsule) : UInt8 :=
  Flag.setFlag (Flag.setFlag 0 flagposDX c.flagDX) flagposDS c.flagDS

/-- `CCapsule::parseFlags` -/
def parseFlags (c : CCapsule) (flags : UInt8) : CCapsule :=
  { c with flagDX := Flag.getFlag flags flagposDX, flagDS := Flag.getFlag flags flagposDS }

/-- `CCapsule::pack` -/
def pack (host : ByteOrder) (c : CCapsule) : Bytes :=
  c.dstAddress.val ++ c.srcAddress.val ++ hop2bytes host c.hop ++ [c.constructFlags] ++
    c.appId.val ++ c.data

/-- The number of bytes in front of the data. -/
def headerSize : ℕ := 2 * sanAddressSize + 2 + 1 + sanHashSize

/-- `unpack` overwrites a capsule with the fields of a byte string. The result
says whether the string was long enough; a short one changes nothing. -/
def unpack (host : ByteOrder) (c : CCapsule) (capsule : Bytes) : Bool × CCapsule :=
  if h : capsule.length < headerSize then (false, c)
  else
    have hsize : 2 * sanAddressSize + 2 + 1 + sanHashSize ≤ capsule.length := not_lt.mp h
    let c := { c with
      dstAddress := FixedBytes.read sanAddressSize capsule 0 (by omega)
      srcAddress := FixedBytes.read sanAddressSize capsule sanAddressSize (by omega)
      hop := Endian.sanUBe16toh host
        (UInt16.ofNat (host.load ((capsule.drop (2 * sanAddressSize)).take 2))) }
    let c := c.parseFlags capsule[2 * sanAddressSize + 2]
    (true, { c with
      appId := FixedBytes.read sanHashSize capsule (2 * sanAddressSize + 2 + 1) (by omega)
      data := capsule.drop headerSize })

/-- `getPortsDS` assigns its two arguments on success and leaves them alone
otherwise. -/
def getPortsDS (host : ByteOrder) (c : CCapsule) (dstport srcport : UInt16) :
    Bool × UInt16 × UInt16 :=
  if !c.flagDS then (false, dstport, srcport)
  else if c.data.length < 4 then (false, dstport, srcport)
  else (true, CDataPack.unpackUint16 host c.data 0, CDataPack.unpackUint16 host c.data 2)

/-- The seven fields of a capsule in the order of the wire. -/
def layout (dst src : SanAddress) (hop : UInt16) (flags : UInt8) (appId : SanApplicationId)
    (data : Bytes) : Bytes :=
  dst.val ++ (src.val ++ (BigEndian.bytes 2 hop.toNat ++ (flags :: (appId.val ++ data))))

/-- A packed capsule is its header and its data. -/
theorem length_layout (dst src : SanAddress) (hop : UInt16) (flags : UInt8)
    (appId : SanApplicationId) (data : Bytes) :
    (layout dst src hop flags appId data).length = headerSize + data.length := by
  simp only [layout, List.length_append, List.length_cons, dst.property, src.property,
    appId.property, BigEndian.length_bytes, headerSize]
  omega

/-- A packed capsule is its fields laid out in order, on every host. -/
theorem pack_eq_layout (host : ByteOrder) (c : CCapsule) :
    c.pack host = layout c.dstAddress c.srcAddress c.hop c.constructFlags c.appId c.data := by
  simp [pack, layout, hop2bytes, Endian.store_sanUHtobe16]

/-- Reading an array that stands at a position of a byte string. -/
theorem read_append {n : ℕ} (before after : Bytes) (a : FixedBytes n) {position : ℕ}
    (hposition : before.length = position)
    (h : position + n ≤ (before ++ (a.val ++ after)).length) :
    FixedBytes.read n (before ++ (a.val ++ after)) position h = a := by
  apply Subtype.ext
  subst hposition
  simp only [FixedBytes.read]
  rw [List.drop_left, List.take_left' a.property]

/-- Unpacking a laid-out capsule reads every field back. -/
theorem unpack_layout (host : ByteOrder) (c : CCapsule) (dst src : SanAddress) (hop : UInt16)
    (flags : UInt8) (appId : SanApplicationId) (data : Bytes) :
    c.unpack host (layout dst src hop flags appId data) =
      (true, { c with
        dstAddress := dst
        srcAddress := src
        hop := hop
        flagDX := Flag.getFlag flags flagposDX
        flagDS := Flag.getFlag flags flagposDS
        appId := appId
        data := data }) := by
  have hsize : headerSize = 87 := rfl
  have hlen := length_layout dst src hop flags appId data
  have hdst : dst.val.length = 32 := dst.property
  have hsrcLength : src.val.length = 32 := src.property
  have happLength : appId.val.length = 20 := appId.property
  -- The same string with the fields in front of each offset grouped together.
  have hreadDst : FixedBytes.read sanAddressSize (layout dst src hop flags appId data) 0
      (by omega) = dst :=
    read_append [] _ dst rfl _
  have hreadSrc : FixedBytes.read sanAddressSize (layout dst src hop flags appId data)
      sanAddressSize (by omega) = src :=
    read_append dst.val _ src hdst _
  have hreadHop : ((layout dst src hop flags appId data).drop (2 * sanAddressSize)).take 2 =
      BigEndian.bytes 2 hop.toNat := by
    have hgroup : layout dst src hop flags appId data = (dst.val ++ src.val) ++
        (BigEndian.bytes 2 hop.toNat ++ (flags :: (appId.val ++ data))) := by simp [layout]
    have hbefore : (dst.val ++ src.val).length = 2 * sanAddressSize := by simp; omega
    rw [hgroup, List.drop_left' hbefore, List.take_left' (BigEndian.length_bytes _ _)]
  have hreadFlags : (layout dst src hop flags appId data)[2 * sanAddressSize + 2] = flags := by
    have hgroup : layout dst src hop flags appId data =
        (dst.val ++ src.val ++ BigEndian.bytes 2 hop.toNat) ++ flags :: (appId.val ++ data) := by
      simp [layout]
    have hbefore : (dst.val ++ src.val ++ BigEndian.bytes 2 hop.toNat).length =
        2 * sanAddressSize + 2 := by simp; omega
    exact List.getElem_of_append hgroup hbefore
  have hreadApp : FixedBytes.read sanHashSize (layout dst src hop flags appId data)
      (2 * sanAddressSize + 2 + 1) (by omega) = appId := by
    have hgroup : layout dst src hop flags appId data =
        (dst.val ++ src.val ++ BigEndian.bytes 2 hop.toNat ++ [flags]) ++ (appId.val ++ data) := by
      simp [layout]
    have hbefore : (dst.val ++ src.val ++ BigEndian.bytes 2 hop.toNat ++ [flags]).length =
        2 * sanAddressSize + 2 + 1 := by simp; omega
    simp only [hgroup]
    exact read_append _ _ appId hbefore _
  have hreadData : (layout dst src hop flags appId data).drop headerSize = data := by
    have hgroup : layout dst src hop flags appId data =
        (dst.val ++ src.val ++ BigEndian.bytes 2 hop.toNat ++ [flags] ++ appId.val) ++ data := by
      simp [layout]
    have hbefore : (dst.val ++ src.val ++ BigEndian.bytes 2 hop.toNat ++ [flags] ++
        appId.val).length = headerSize := by simp; omega
    rw [hgroup, List.drop_left' hbefore]
  have hconvert : Endian.sanUBe16toh host (UInt16.ofNat (host.load
      (((layout dst src hop flags appId data).drop (2 * sanAddressSize)).take 2))) = hop := by
    rw [hreadHop, Endian.sanUBe16toh_load host (BigEndian.length_bytes _ _),
      BigEndian.value_bytes_of_lt hop.toNat_lt, UInt16.ofNat_toNat]
  rw [unpack, dif_neg (by omega)]
  simp only [parseFlags, hreadDst, hreadSrc, hconvert, hreadFlags, hreadApp, hreadData]

/-- Every string that holds a whole header is a laid-out capsule. -/
theorem exists_layout {b : Bytes} (h : headerSize ≤ b.length) :
    ∃ dst src hop flags appId data, b = layout dst src hop flags appId data := by
  have hsize : headerSize = 87 := rfl
  have hhop : ((b.drop 64).take 2).length = 2 := by simp; omega
  refine ⟨⟨b.take 32, by simp; omega⟩, ⟨(b.drop 32).take 32, by simp; omega⟩,
    UInt16.ofNat (BigEndian.value ((b.drop 64).take 2)), b[66],
    ⟨(b.drop 67).take 20, by simp; omega⟩, b.drop 87, ?_⟩
  have hlt : BigEndian.value ((b.drop 64).take 2) < 2 ^ 16 := by
    have hvalue := BigEndian.value_lt ((b.drop 64).take 2)
    rw [hhop] at hvalue
    exact hvalue
  have hbytes : BigEndian.bytes 2 (UInt16.ofNat
      (BigEndian.value ((b.drop 64).take 2))).toNat = (b.drop 64).take 2 := by
    rw [UInt16.toNat_ofNat_of_lt' hlt]
    have hvalue := BigEndian.bytes_value ((b.drop 64).take 2)
    rwa [hhop] at hvalue
  have hflags : b.drop 66 = b[66] :: b.drop 67 := List.drop_eq_getElem_cons (by omega)
  simp only [layout, hbytes]
  rw [show b.drop 87 = (b.drop 67).drop 20 by simp, List.take_append_drop, ← hflags,
    show b.drop 66 = (b.drop 64).drop 2 by simp, List.take_append_drop,
    show b.drop 64 = (b.drop 32).drop 32 by simp, List.take_append_drop,
    List.take_append_drop]

/-- Only the two low bits of the flag byte have a meaning. -/
theorem constructFlags_parseFlags (c : CCapsule) (flags : UInt8) :
    (c.parseFlags flags).constructFlags = flags &&& 3 := by
  have hall : ∀ n : Fin 256,
      Flag.setFlag (Flag.setFlag 0 flagposDX (Flag.getFlag (UInt8.ofNat n) flagposDX)) flagposDS
        (Flag.getFlag (UInt8.ofNat n) flagposDS) = UInt8.ofNat n &&& 3 := by
    decide +kernel
  have hflags := hall ⟨flags.toNat, flags.toNat_lt⟩
  rwa [UInt8.ofNat_toNat] at hflags

/-- The flag byte of a capsule gives its two flags back. -/
theorem getFlag_constructFlags (c : CCapsule) :
    Flag.getFlag c.constructFlags flagposDX = c.flagDX ∧
      Flag.getFlag c.constructFlags flagposDS = c.flagDS := by
  rcases hdx : c.flagDX with _ | _ <;> rcases hds : c.flagDS with _ | _ <;>
    simp only [constructFlags, hdx, hds] <;> decide

/-- Unpacking a packed capsule succeeds and restores every field except the
interface address, whatever the object held before. -/
theorem unpack_pack (sender receiver : ByteOrder) (c old : CCapsule) :
    old.unpack receiver (c.pack sender) =
      (true, { c with interfaceAddress := old.interfaceAddress }) := by
  obtain ⟨hdx, hds⟩ := c.getFlag_constructFlags
  rw [pack_eq_layout, unpack_layout, hdx, hds]

/-- A packed capsule that is cut off in its data is taken for a capsule with less data. -/
theorem unpack_take_pack (sender receiver : ByteOrder) (c old : CCapsule) (n : ℕ) :
    old.unpack receiver ((c.pack sender).take (headerSize + n)) =
      (true, { c with interfaceAddress := old.interfaceAddress, data := c.data.take n }) := by
  have hheader : (c.pack sender).take (headerSize + n) =
      { c with data := c.data.take n }.pack sender := by
    have hlength : (c.dstAddress.val ++ c.srcAddress.val ++ hop2bytes sender c.hop ++
        [c.constructFlags] ++ c.appId.val).length = headerSize := by
      simp only [List.length_append, c.dstAddress.property, c.srcAddress.property,
        c.appId.property, hop2bytes, Endian.store_sanUHtobe16, BigEndian.length_bytes,
        List.length_singleton]
      rfl
    rw [pack, pack, List.take_append, List.take_of_length_le (by omega), hlength,
      Nat.add_sub_cancel_left]
    rfl
  rw [hheader, unpack_pack]

/-- Two capsules are packed alike only if they agree in every packed member. -/
theorem pack_eq_iff (host : ByteOrder) (c c' : CCapsule) :
    c.pack host = c'.pack host ↔
      { c with interfaceAddress := c'.interfaceAddress } = c' := by
  constructor
  · intro h
    have hfirst := unpack_pack host host c c'
    have hsecond := unpack_pack host host c' c'
    rw [h, hsecond] at hfirst
    exact (Prod.mk.inj hfirst).2.symm
  · intro h
    have hsame : c.pack host = { c with interfaceAddress := c'.interfaceAddress }.pack host := rfl
    rw [hsame, h]

/-- `unpack` rejects exactly the strings shorter than the header. -/
theorem unpack_fst_eq_false_iff (host : ByteOrder) (c : CCapsule) (b : Bytes) :
    (c.unpack host b).1 = false ↔ b.length < headerSize := by
  by_cases h : b.length < headerSize
  · simp [unpack, h]
  · simp [unpack, h]

/-- A rejected string leaves the capsule as it was. -/
theorem unpack_of_lt {b : Bytes} (h : b.length < headerSize) (host : ByteOrder) (c : CCapsule) :
    c.unpack host b = (false, c) := dif_pos h

/-- The data of an accepted string are the bytes behind the header. -/
theorem data_of_unpack {b : Bytes} {host : ByteOrder} {old c : CCapsule}
    (h : old.unpack host b = (true, c)) : headerSize ≤ b.length ∧ c.data = b.drop headerSize := by
  by_cases hshort : b.length < headerSize
  · rw [unpack_of_lt hshort] at h
    exact absurd (congrArg Prod.fst h) (by simp)
  · rw [unpack, dif_neg hshort] at h
    obtain ⟨-, rfl⟩ := Prod.mk.inj h
    exact ⟨not_lt.mp hshort, rfl⟩

/-- Packing an unpacked string gives it back with the six unused flag bits
cleared. -/
theorem pack_unpack (receiver sender : ByteOrder) (c : CCapsule) {b : Bytes}
    (h : headerSize ≤ b.length) :
    (c.unpack receiver b).2.pack sender = b.modify 66 (· &&& 3) := by
  obtain ⟨dst, src, hop, flags, appId, data, rfl⟩ := exists_layout h
  rw [unpack_layout, pack_eq_layout]
  have hflags := constructFlags_parseFlags c flags
  simp only [constructFlags, parseFlags] at hflags
  simp only [constructFlags, hflags]
  have hgroup : ∀ flags, layout dst src hop flags appId data =
      (dst.val ++ src.val ++ BigEndian.bytes 2 hop.toNat) ++ flags :: (appId.val ++ data) := by
    intro flags
    simp [layout]
  have hbefore : (dst.val ++ src.val ++ BigEndian.bytes 2 hop.toNat).length = 66 := by
    have hdst : dst.val.length = 32 := dst.property
    have hsrc : src.val.length = 32 := src.property
    simp
    omega
  rw [hgroup (flags &&& 3), hgroup flags, ← hbefore]
  have hmodify := List.modifyTailIdx_add (List.modifyHead (· &&& (3 : UInt8))) 0
    (dst.val ++ src.val ++ BigEndian.bytes 2 hop.toNat) (flags :: (appId.val ++ data))
  exact hmodify.symm

/-- The port numbers of a datagram capsule come back from its data. -/
theorem getPortsDS_setDSdata (sender receiver : ByteOrder) (c : CCapsule)
    (dstport srcport : UInt16) (d : Bytes) (dst₀ src₀ : UInt16) :
    (c.setDSdata sender dstport srcport d).getPortsDS receiver dst₀ src₀ =
      (true, dstport, srcport) := by
  have hdst := CDataPack.unpackUint16_append receiver []
    (BigEndian.bytes 2 srcport.toNat ++ d) dstport 0 rfl
  have hsrc := CDataPack.unpackUint16_append receiver (BigEndian.bytes 2 dstport.toNat) d srcport
    2 (BigEndian.length_bytes _ _).symm
  rw [List.nil_append] at hdst
  simp [setDSdata, setDS, getPortsDS, hdst, hsrc]
  omega

/-- Whatever two hosts pack and unpack, a capsule survives the wire up to its
interface address, and a string survives the object up to its unused flag bits.
Only strings shorter than the header are rejected, and they change nothing. -/
theorem pack_unpack_inverse (sender receiver : ByteOrder) :
    (∀ c old : CCapsule, old.unpack receiver (c.pack sender) =
      (true, { c with interfaceAddress := old.interfaceAddress })) ∧
    (∀ (c old : CCapsule) (dst src dst₀ src₀ : UInt16) (d : Bytes),
      let received := (old.unpack receiver ((c.setDSdata sender dst src d).pack sender)).2
      received.getPortsDS receiver dst₀ src₀ = (true, dst, src) ∧ received.data.drop 4 = d) ∧
    (∀ (old : CCapsule) (b : Bytes),
      ((old.unpack receiver b).1 = false ↔ b.length < 87) ∧
      (b.length < 87 → (old.unpack receiver b).2 = old) ∧
      (87 ≤ b.length → (old.unpack receiver b).2.pack sender = b.modify 66 (· &&& 3))) := by
  refine ⟨unpack_pack sender receiver, ?_, ?_⟩
  · intro c old dst src dst₀ src₀ d
    rw [unpack_pack]
    constructor
    · exact getPortsDS_setDSdata sender receiver c dst src d dst₀ src₀
    · have hports : (BigEndian.bytes 2 dst.toNat ++ BigEndian.bytes 2 src.toNat).length = 4 := by
        simp
      simp only [setDSdata, CDataPack.packUint16_eq]
      exact List.drop_left' hports
  · intro old b
    refine ⟨unpack_fst_eq_false_iff receiver old b, ?_, pack_unpack receiver sender old⟩
    intro h
    rw [unpack_of_lt h]

end CCapsule

end Network

end San2
