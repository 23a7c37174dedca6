import SourceJar.Archive.Bzip2
import SourceJar.Archive.Inflate
import SourceJar.Archive.Inflate64
import SourceJar.Archive.Lzma
import SourceJar.Archive.Xz
import SourceJar.Archive.Zip.Entry
import SourceJar.Archive.Zstd
import SourceJar.Failure

/-!
The content of an archive's entries: the data after the entry's own header, restored and checked.
-/

namespace SourceJar.Archive.Zip

/-- Where the data of an entry starts. -/
def dataOffset (data : Bytes) (entry : DirectoryEntry) : Except Failure Nat :=
  match slice? data entry.headerOffset 30 with
  | none => .error (.io .endOfInput)
  | some record =>
    if localSignature.isPrefixOf record then
      .ok (entry.headerOffset + 30 + fieldAt record 26 2 + fieldAt record 28 2)
    else .error (.archive .localHeader)

/-- How data is restored that was packed by a method, if the method is known. Data that the method
cannot have made is not restored. -/
def restorer? (method : Nat) : Option (Bytes → Option Bytes) :=
  if method = stored then some some
  else if method = deflated then some Inflate.inflate?
  else if method = farDeflated then some Inflate64.restore?
  else if method = blockSorted then some Bzip2.restore?
  else if method = decided then some Lzma.restore?
  else if method = framed then some Zstd.restore?
  else if method = indexed then some Xz.restore?
  else none

/-- Data as it was before it was packed. -/
def restored (method : Nat) (data : Bytes) : Except IoFault Bytes :=
  match restorer? method with
  | none => .error (.badEntry "Compression method not supported")
  | some restore =>
    match restore data with
    | some bytes => .ok bytes
    | none => .error (.badEntry "corrupt stream")

/-- The content of an entry, checked against its checksum. Encrypted content is not read. -/
def content (data : Bytes) (entry : DirectoryEntry) : Except IoFault Bytes :=
  if entry.flags.testBit 0 || entry.describesEncryption then
    .error (.badEntry "Password required to decrypt file")
  else
    match dataOffset data entry with
    | .error e => .error (.other e.message)
    | .ok offset => do
      let bytes ← restored entry.method ((data.drop offset).take entry.compressedSize)
      if crc32 bytes = entry.crc then return bytes else throw (.badEntry "Invalid checksum")

end SourceJar.Archive.Zip
