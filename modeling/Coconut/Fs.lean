import Coconut.Ext2
import Coconut.UserBuffer
import Coconut.Vmm

/-!
# File-system syscalls

`SYS_FS_OPEN`, `READ`, `STAT` and `CLOSE` on the table of open files that all shards
share.  A descriptor works for the shard that opened it only.
-/
namespace Coconut

@[simp] def maxPathLen : Nat := 256

/-- Close every file a shard still has open. -/
def releaseShard (files : Table maxOpenFiles OpenFile) (shardId : Nat) :
    Table maxOpenFiles OpenFile :=
  fun fd => if (files fd).active && (files fd).shardId == shardId then OpenFile.closed else files fd

/-- `OPEN_FILES[fd]` if it is open and belongs to the caller. -/
def callerFile (s : Sys) (fd : Nat) : Option OpenFile :=
  if fd < maxOpenFiles then
    let file := s.openFiles.getD fd OpenFile.closed
    if file.active && file.shardId == s.currentShard then some file else none
  else none

/-- SYS_FS_OPEN: a descriptor, or `u64::MAX`. -/
def handleFsOpen (s : Sys) (pathPtr pathLen : Nat) : Kernel (Sys × Nat) := do
  if pathLen == 0 || maxPathLen < pathLen then return (s, u64Max)
  if !(← validateUserReadBuf s pathPtr pathLen) then return (s, u64Max)
  let path ← copyIn s.ram.mem s.cr3 pathPtr pathLen
  match ← s.fs.lookup path with
  | none => return (s, u64Max)
  | some inodeNr =>
    match ← s.fs.readInode inodeNr with
    | none => return (s, u64Max)
    | some inode =>
      if !inode.isRegularFile then return (s, u64Max)
      match firstFrom (fun fd => !(s.openFiles.getD fd OpenFile.closed).active) maxOpenFiles 0 with
      | none => return (s, u64Max)
      | some fd =>
        let file := ⟨true, s.currentShard, inodeNr, inode.size, 0⟩
        return ({ s with openFiles := s.openFiles.modify fd fun _ => file }, fd)

/-- SYS_FS_READ: bytes read, or `u64::MAX`. -/
def handleFsRead (s : Sys) (fd bufPtr maxLen : Nat) : Kernel (Sys × Nat) := do
  match callerFile s fd with
  | none => return (s, u64Max)
  | some file =>
    if maxLen == 0 then return (s, u64Max)
    if !(← validateUserWriteBuf s bufPtr maxLen) then return (s, u64Max)
    match ← s.fs.readInode file.inodeNr with
    | none => return (s, u64Max)
    | some inode =>
      let bytes ← s.fs.readData inode file.offset maxLen
      let m ← copyOut s.ram.mem s.cr3 bufPtr bytes
      let advance (file : OpenFile) : OpenFile :=
        { file with offset := (file.offset + bytes.length) % 0x100000000 }
      return ({ s.setMem m with openFiles := s.openFiles.modify fd advance }, bytes.length)

/-- SYS_FS_STAT: the file's size, or `u64::MAX`. -/
def handleFsStat (s : Sys) (fd : Nat) : Nat :=
  match callerFile s fd with
  | none => u64Max
  | some file => file.size

/-- SYS_FS_CLOSE. -/
def handleFsClose (s : Sys) (fd : Nat) : Sys × Nat :=
  match callerFile s fd with
  | none => (s, u64Max)
  | some _ => ({ s with openFiles := s.openFiles.modify fd fun _ => OpenFile.closed }, 0)

end Coconut
