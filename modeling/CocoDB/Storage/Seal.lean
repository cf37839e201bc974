import CocoDB.Storage.DefaultPager

/-!
# Sealed pages

A sealed page carries its header and the checksum of its bytes.  Parsing such a
page and sealing it again gives the same bytes.
-/

namespace CocoDB

open Lib

/-- The bytes of a page as `Seal` leaves them. -/
structure Sealed (data : Buf) : Prop where
  reserved : data.read 9 1 = [0]
  unused : data.read 26 2 = [0, 0]
  valid : Page.validateChecksum data = true

theorem Sealed.encode_decode {data : Buf} (intact : Sealed data) :
    (PageHeader.decode data).encode = data.read 0 32 := by
  have word8 : ∀ offset, be 8 (UInt64.ofNat (ofBE (data.read offset 8))).toNat =
      data.read offset 8 := by
    intro offset
    have small := ofBE_lt (data.read offset 8)
    rw [Buf.read_length] at small
    rw [UInt64.toNat_ofNat_of_lt' small]
    exact be_ofBE_of_length (Buf.read_length _ _ _)
  have word4 : be 4 (UInt32.ofNat (ofBE (data.read 28 4))).toNat =
      data.read 28 4 := by
    have small := ofBE_lt (data.read 28 4)
    rw [Buf.read_length] at small
    rw [UInt32.toNat_ofNat_of_lt' small]
    exact be_ofBE_of_length (Buf.read_length _ _ _)
  have word2 : ∀ offset, be 2 (ofBE (data.read offset 2)) =
      data.read offset 2 :=
    fun offset => be_ofBE_of_length (Buf.read_length _ _ _)
  have byte : [data 8] = data.read 8 1 := (data.read_one 8).symm
  have zeros : be 2 0 = data.read 26 2 := intact.unused.symm
  unfold PageHeader.encode PageHeader.decode
  simp only [PageType.toByte_ofByte, word8, word4, word2]
  rw [byte, ← intact.reserved, zeros]
  have join : ∀ first second third, first + second = third →
      data.read 0 first ++ data.read first second = data.read 0 third := by
    rintro first second _ rfl
    have whole := data.read_append 0 first second
    rwa [Nat.zero_add] at whole
  rw [join 8 1 9 rfl, join 9 1 10 rfl, join 10 2 12 rfl, join 12 8 20 rfl,
    join 20 2 22 rfl, join 22 2 24 rfl, join 24 2 26 rfl, join 26 2 28 rfl,
    join 28 4 32 rfl]

theorem Sealed.sealPage_eq {page : Page} (intact : Sealed page.data)
    (parsed : page.header = PageHeader.decode page.data) :
    page.sealPage = page := by
  have written : page.writeHeader = page := by
    have bytes : page.header.encode = page.data.read 0 32 := by
      rw [parsed]
      exact intact.encode_decode
    unfold Page.writeHeader
    rw [bytes, Buf.write_read_self]
  have stored : Page.computeChecksum page.data = page.header.checksum := by
    rw [parsed]
    exact (beq_iff_eq.mp intact.valid).symm
  have field : be 4 page.header.checksum.toNat = page.data.read 28 4 := by
    have small := ofBE_lt (page.data.read 28 4)
    rw [Buf.read_length] at small
    rw [parsed]
    show be 4 (UInt32.ofNat (ofBE (page.data.read 28 4))).toNat = _
    rw [UInt32.toNat_ofNat_of_lt' small]
    exact be_ofBE_of_length (Buf.read_length _ _ _)
  unfold Page.sealPage
  simp only [written, stored, field, Buf.write_read_self]

private theorem write_write (data : Buf) (offset : Nat) {first second : Bytes}
    (sized : first.length = second.length) :
    (data.write offset first).write offset second =
      data.write offset second := by
  funext index
  by_cases outside : index < offset ∨ offset + second.length ≤ index
  · rw [Buf.write_apply_outside outside, Buf.write_apply_outside outside,
      Buf.write_apply_outside (by omega)]
  · obtain ⟨shift, rfl⟩ := Nat.exists_eq_add_of_le
      (show offset ≤ index by omega)
    rw [Buf.write_apply_inside (by omega), Buf.write_apply_inside (by omega)]

theorem Page.sealPage_header (page : Page) {offset length : Nat}
    (small : offset + length ≤ 28) :
    page.sealPage.data.read offset length =
      (page.header.encode.drop offset).take length := by
  have front : page.writeHeader.data.read 0 32 = page.header.encode := by
    have whole := Buf.read_write_same page.data 0 page.header.encode
    rwa [PageHeader.encode_length] at whole
  unfold Page.sealPage
  rw [Buf.read_write_disjoint (.inl (by omega)), ← front, Buf.read_drop,
    Buf.read_take, Nat.zero_add, Nat.min_eq_left (by omega)]

theorem Page.sealed_sealPage (page : Page) : Sealed page.sealPage.data := by
  refine ⟨?_, ?_, ?_⟩
  · rw [page.sealPage_header (by omega)]
    simp [PageHeader.encode, List.drop_append, be_drop]
  · rw [page.sealPage_header (by omega)]
    simp [PageHeader.encode, be]
  · unfold Page.validateChecksum Page.sealPage
    have stored := Buf.read_write_same page.writeHeader.data 28
      (be 4 (Page.computeChecksum page.writeHeader.data).toNat)
    rw [be_length] at stored
    rw [stored, ofBE_be32]
    unfold Page.computeChecksum
    rw [write_write _ _ (by rw [be_length, be_length]), beq_iff_eq]

namespace Page

theorem sealPage_header_eq (page : Page) :
    page.sealPage.header =
      { page.header with
        checksum := computeChecksum page.writeHeader.data } := rfl

theorem sealPage_body (page : Page) :
    page.sealPage.data.read 32 (defaultPageSize - 32) =
      page.data.read 32 (defaultPageSize - 32) := by
  unfold sealPage
  rw [Buf.read_write_disjoint (.inr (by simp)), writeHeader_read _ (by omega)]

theorem sealPage_id (page : Page) :
    page.sealPage.header.id = page.header.id := by
  rw [sealPage_header_eq]

theorem sealPage_dirty (page : Page) : page.sealPage.dirty = page.dirty := by
  unfold sealPage
  rfl

end Page

/-! ## Images -/

def SealedImage (id : PageID) (image : Bytes) : Prop :=
  ∃ page : Page, page.header.id = id ∧ image = page.sealPage.image

namespace SealedImage

variable {id : PageID} {image : Bytes}

theorem length_eq (sealed : SealedImage id image) :
    image.length = defaultPageSize := by
  obtain ⟨page, _, rfl⟩ := sealed
  exact Buf.read_length _ _ _

theorem parse_apply (page : Page) {index : Nat}
    (inside : index < defaultPageSize) :
    (DefaultPager.parsePage page.image).data index = page.data index := by
  have length : page.image.length = defaultPageSize := Buf.read_length _ _ _
  have written : Buf.zero.write 0 page.image (0 + index) = _ :=
    Buf.write_apply_inside (by omega)
  rw [Nat.zero_add] at written
  refine written.trans ?_
  have stored := Buf.read_getElem? page.data 0 defaultPageSize index
  rw [if_pos inside, Nat.zero_add] at stored
  exact (List.getElem?_eq_some_iff.mp stored).2

theorem parse_read (page : Page) {offset length : Nat}
    (inside : offset + length ≤ defaultPageSize) :
    (DefaultPager.parsePage page.image).data.read offset length =
      page.data.read offset length :=
  Buf.read_congr fun _ _ below => parse_apply page (by omega)

theorem parse_checksum (page : Page) :
    Page.computeChecksum (DefaultPager.parsePage page.image).data =
      Page.computeChecksum page.data := by
  unfold Page.computeChecksum
  congr 1
  refine Buf.read_congr fun index _ below => ?_
  by_cases outside : index < 28 ∨ 28 + (be 4 0).length ≤ index
  · rw [Buf.write_apply_outside outside, Buf.write_apply_outside outside,
      parse_apply page (by omega)]
  · obtain ⟨shift, rfl⟩ := Nat.exists_eq_add_of_le
      (show 28 ≤ index by omega)
    rw [Buf.write_apply_inside (by omega), Buf.write_apply_inside (by omega)]

theorem parse_sealed (sealed : SealedImage id image) :
    Sealed (DefaultPager.parsePage image).data ∧
      (DefaultPager.parsePage image).header.id = id ∧
      (DefaultPager.parsePage image).image = image := by
  obtain ⟨page, rfl, rfl⟩ := sealed
  have intact := page.sealed_sealPage
  have size : defaultPageSize = 16384 := rfl
  refine ⟨⟨?_, ?_, ?_⟩, ?_, ?_⟩
  · rw [parse_read _ (by omega)]
    exact intact.reserved
  · rw [parse_read _ (by omega)]
    exact intact.unused
  · have valid := intact.valid
    unfold Page.validateChecksum at valid ⊢
    rwa [parse_read _ (by omega), parse_checksum]
  · show UInt64.ofNat (ofBE ((DefaultPager.parsePage _).data.read 0 8)) = _
    rw [parse_read _ (by omega), page.sealPage_header (by omega)]
    simp [PageHeader.encode]
  · exact parse_read _ (by omega)

theorem reseal (sealed : SealedImage id image) :
    (DefaultPager.parsePage image).sealPage =
      DefaultPager.parsePage image :=
  sealed.parse_sealed.1.sealPage_eq rfl

end SealedImage

end CocoDB
