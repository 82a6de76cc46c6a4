import SrirachOS.Foundation.CInt

/-!
# The File System Image

The boot loader leaves one file system image in memory, starting at `FS_START_ADDR`
(`filesys.c`, `filesys.h`). It is modelled as the bytes it is: every structure of
`filesys.h` is read out of the bytes at the address the C code computes, so an access that
leaves its structure reads the neighbouring bytes, as in the kernel.

- block 0 is the boot block: three counts and 63 directory entries of 64 bytes,
- the next `inode_count` blocks are inodes: a length and 1023 block numbers,
- the remaining blocks are data blocks.

All addresses are offsets from `FS_START_ADDR`, taken modulo `2^32` as pointers are.
-/

namespace SrirachOS

open Foundation

/-- The memory of the file system: the byte at each offset from `FS_START_ADDR`. -/
abbrev Image := Nat → UInt8

namespace Image

/-- The byte at address `a`. -/
def byte (img : Image) (a : Int) : UInt8 := img (u32 a).toNat

/-- The little-endian `int32_t` at address `a`. -/
@[irreducible] def word (img : Image) (a : Int) : Int :=
  i32 ((img.byte a).toNat + 256 * (img.byte (a + 1)).toNat
    + 65536 * (img.byte (a + 2)).toNat + 16777216 * (img.byte (a + 3)).toNat)

theorem word_ge (img : Image) (a : Int) : -2147483648 ≤ img.word a := by
  unfold word; exact i32_ge _

theorem word_lt (img : Image) (a : Int) : img.word a < 2147483648 := by
  unfold word; exact i32_lt _

/-! ## Boot block -/

def dirCount (img : Image) : Int := img.word 0

def inodeCount (img : Image) : Int := img.word 4

def dataCount (img : Image) : Int := img.word 8

/-- `&boot_block->direntries[i]`. -/
def direntry (i : Int) : Int := 64 + 64 * i

/-- `boot_block->direntries[i].filename[k]`. -/
def filename (img : Image) (i k : Int) : UInt8 := img.byte (direntry i + k)

/-- `boot_block->direntries[i].filetype`: 0 is the rtc, 1 a directory, 2 a regular file. -/
def filetype (img : Image) (i : Int) : Int := img.word (direntry i + 32)

/-- `boot_block->direntries[i].inode_num`. -/
def inodeNum (img : Image) (i : Int) : Int := img.word (direntry i + 36)

/-! ## Inodes and data blocks -/

/-- `INODE_START_ADDR + (inode * FOUR_KB)`. -/
def inodeAddr (inode : Int) : Int := 4096 + inode * 4096

/-- `read_inode->length`. -/
def inodeLength (img : Image) (inode : Int) : Int := img.word (inodeAddr inode)

/-- `read_inode->data_block_num[i]`. -/
def dataBlockNum (img : Image) (inode i : Int) : Int :=
  img.word (inodeAddr inode + 4 + 4 * i)

/-- `boot_block + ((boot_block->inode_count + 1) * FOUR_KB) + (curr_block_idx * FOUR_KB)`. -/
def blockAddr (img : Image) (currBlockIdx : Int) : Int :=
  (img.inodeCount + 1) * 4096 + currBlockIdx * 4096

end Image

/-- `dentry_t`, less the reserved bytes that no function copies. -/
structure Dentry where
  filename : Int → UInt8
  filetype : Int
  inodeNum : Int

/-! ## Files of an image -/

namespace Image

/-- The byte at position `pos` of a file: byte `pos % 4096` of its block number
`pos / 4096`. -/
def fileByte (img : Image) (inode : Int) (pos : Nat) : UInt8 :=
  img.byte (img.blockAddr (img.dataBlockNum inode (pos / 4096 : Nat)) + (pos % 4096 : Nat))

/-- Data block `b`: 4096 bytes. -/
def block (img : Image) (b : Int) : List UInt8 :=
  (List.range 4096).map fun j => img.byte (img.blockAddr b + (j : Nat))

/-- The number of blocks that a file of `length` bytes occupies. -/
@[irreducible] def numBlocks (length : Int) : Nat := ((length + 4095) / 4096).toNat

/-- The contents of a file: its data blocks concatenated in block-list order and cut at its
length. -/
@[irreducible] def contents (img : Image) (inode : Int) : List UInt8 :=
  ((List.range (numBlocks (img.inodeLength inode))).flatMap fun i =>
    img.block (img.dataBlockNum inode (i : Nat))).take (img.inodeLength inode).toNat

/-- The inode of a file is well formed: it is one of the image's inodes, its length fits a
block list, and the blocks it uses are data blocks of the image that `read_data` accepts. -/
structure WellFormedFile (img : Image) (inode : Int) : Prop where
  inode_nonneg : 0 ≤ inode
  inode_lt : inode < img.inodeCount
  length_nonneg : 0 ≤ img.inodeLength inode
  length_le : img.inodeLength inode ≤ 1023 * 4096
  block_nonneg : ∀ i : Nat, i < numBlocks (img.inodeLength inode) →
    0 ≤ img.dataBlockNum inode i
  block_lt : ∀ i : Nat, i < numBlocks (img.inodeLength inode) →
    img.dataBlockNum inode i < img.dataCount
  block_le : ∀ i : Nat, i < numBlocks (img.inodeLength inode) →
    img.dataBlockNum inode i ≤ 1022

/-- A well-formed image: every regular file among the 63 directory entries is well formed. -/
def WellFormed (img : Image) : Prop :=
  ∀ i : Nat, i < 63 → img.filetype i = 2 → img.WellFormedFile (img.inodeNum i)

instance (img : Image) (inode : Int) : Decidable (img.WellFormedFile inode) :=
  decidable_of_iff
    (0 ≤ inode ∧ inode < img.inodeCount ∧ 0 ≤ img.inodeLength inode ∧
      img.inodeLength inode ≤ 1023 * 4096 ∧
      ∀ i : Nat, i < numBlocks (img.inodeLength inode) →
        0 ≤ img.dataBlockNum inode i ∧ img.dataBlockNum inode i < img.dataCount ∧
          img.dataBlockNum inode i ≤ 1022)
    ⟨fun ⟨h0, h1, h2, h3, h4⟩ =>
      ⟨h0, h1, h2, h3, fun i hi => (h4 i hi).1, fun i hi => (h4 i hi).2.1,
        fun i hi => (h4 i hi).2.2⟩,
    fun h => ⟨h.inode_nonneg, h.inode_lt, h.length_nonneg, h.length_le,
      fun i hi => ⟨h.block_nonneg i hi, h.block_lt i hi, h.block_le i hi⟩⟩⟩

instance (img : Image) : Decidable img.WellFormed :=
  inferInstanceAs (Decidable (∀ i : Nat, i < 63 → _))

end Image

/-! ## A small image -/

/-- The directory, the files `a` of three bytes and `b` of two, and a program `shell` of 28: the
bytes that are not zero. -/
def sampleBytes : List (Nat × UInt8) :=
  [(0, 4), (4, 4), (8, 3),
    (64, 46), (96, 1),
    (128, 97), (160, 2), (164, 1),
    (192, 98), (224, 2), (228, 2),
    (256, 115), (257, 104), (258, 101), (259, 108), (260, 108), (288, 2), (292, 3),
    (8192, 3),
    (12288, 2), (12292, 1),
    (16384, 28), (16388, 2),
    (20480, 120), (20481, 121), (20482, 122),
    (24576, 104), (24577, 105),
    (28672, 0x7f), (28673, 0x45), (28674, 0x4c), (28675, 0x46), (28697, 0x80), (28698, 0x04),
    (28699, 0x08)]

def sampleImage : Image := fun a => (sampleBytes.lookup a).getD 0

theorem sampleImage_wellFormed : sampleImage.WellFormed := by decide +kernel

end SrirachOS
