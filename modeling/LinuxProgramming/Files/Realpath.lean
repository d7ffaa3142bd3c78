import LinuxProgramming.Library.CBuffer
import LinuxProgramming.Files.Kernel

/-!
Contract: `my_realpath.c`, over any kernel.

Owns:
- `getPartPath`, with the list of components and its end;
- the loop over the components, with the buffer and the cursor `lrp_p` in it;
- `myRealpath`.

Does not own: what the function resolves on any particular tree.
-/

namespace LinuxProgramming.Files

open LinuxProgramming.Library

/-! ### Components -/

/-- A list of components, and the index of the node `*ppnn_end` points to; `none`
is the list head. -/
structure PartPath where
  nodes : List CString
  ppnn_end : Option Nat
deriving DecidableEq, Repr

namespace PartPath

/-- The list after `(*ppnn_end)->next = next`. -/
def linkAfter (list : PartPath) (next : List CString) : List CString :=
  match list.ppnn_end with
  | none => next
  | some last => list.nodes.take (last + 1) ++ next

/-- Link a new node and make it the end. -/
def link (list : PartPath) (name : CString) : PartPath :=
  ⟨list.linkAfter [name], some ((list.linkAfter [name]).length - 1)⟩

end PartPath

/-- The loop of `get_part_path`: `name` has been read into the current node, so that
`p_index` is its length. `none` is a write behind the node. -/
def partPathFrom : CString → CString → PartPath → Option PartPath
  | [], name, list =>
      if name = [] then some list
      else if NAME_MAX < name.length then none
      else some (list.link name)
  | symbol :: rest, name, list =>
      if symbol = slash then
        if name = [] then partPathFrom rest [] list
        else if NAME_MAX < name.length then none
        else partPathFrom rest [] (list.link name)
      else if NAME_MAX < name.length then none
      else partPathFrom rest (name ++ [symbol]) list

def getPartPath : Option CString → Option PartPath
  | none => some ⟨[], none⟩
  | some pathname => partPathFrom pathname [] ⟨[], none⟩

/-! ### The loop -/

/-- The state of the loop: the buffer, the cursor in it, and the components not yet
consumed. -/
structure Resolving where
  local_resolved_path : List UInt8
  lrp_p : Nat
  ppnn : List CString
deriving DecidableEq, Repr

/-- The end of an iteration. A failure carries the `errno` that is set, `none` if
the failing call does not tell. -/
inductive Progress where
  | next (state : Resolving)
  | failed (errno : Option Errno)
deriving DecidableEq, Repr

/-- Where the scan for a slash stops that starts at a cursor. -/
def scanSlash (buffer : List UInt8) : Nat → Nat
  | 0 => 0
  | 1 => 1
  | lrp_p + 2 => if buffer[lrp_p + 2]? = some slash then lrp_p + 2 else scanSlash buffer (lrp_p + 1)

section Program

variable {W S : Type} (kernel : Kernel W S)

/-- A write into the buffer. -/
def put (buffer : List UInt8) (index : Nat) (symbols : List UInt8) : Prog W (List UInt8) :=
  match CBuffer.write? buffer index symbols with
  | none => stop .overflow
  | some buffer => pure buffer

/-- A symbolic link, whose name stands in the buffer from `lrp_p` on. -/
def followLink (buffer : List UInt8) (lrp_p : Nat) (name : CString) (rest : List CString) :
    Prog W Progress := do
  match ← call (kernel.readlink (CBuffer.string 0 buffer)) with
  | .error errno => pure (.failed (some errno))
  | .ok target =>
      let slink_target := target.take PATH_MAX
      -- the terminator goes behind the target
      if PATH_MAX ≤ slink_target.length then stop .overflow
      else do
        let lrp_p := if slink_target.head? = some slash then 1 else lrp_p
        match getPartPath (some slink_target) with
        | none => stop .overflow
        | some slink_tar_part_path =>
            if slink_tar_part_path.nodes = [] then do
              let buffer ← put buffer 1 [0]
              pure (.next ⟨buffer, 1, rest⟩)
            else if lrp_p < name.length then stop .overflow
            else do
              let buffer ← put buffer (lrp_p - name.length) [0]
              pure (.next ⟨buffer, lrp_p - name.length, slink_tar_part_path.linkAfter rest⟩)

/-- One iteration, for the component `name`. -/
def resolveComponent (buffer : List UInt8) (lrp_p : Nat) (name : CString) (rest : List CString) :
    Prog W Progress :=
  if name = dotDot then do
    let lrp_p := scanSlash buffer (max lrp_p 1)
    let buffer ← put buffer lrp_p [0]
    pure (.next ⟨buffer, lrp_p, rest⟩)
  else if name = dot then pure (.next ⟨buffer, lrp_p, rest⟩)
  else do
    let buffer ← put buffer lrp_p [slash]
    let buffer ← put buffer (lrp_p + 1) (name ++ [0])
    let status ← call (kernel.lstat (CBuffer.string 0 buffer))
    if status.1.isSome then pure (.failed status.1)
    else
      match status.2.st_mode with
      | .directory => pure (.next ⟨buffer, lrp_p + 1 + name.length, rest⟩)
      | .symbolicLink => followLink kernel buffer (lrp_p + 1) name rest
      | .other =>
          if rest ≠ [] then pure (.failed (some .enotdir))
          else pure (.next ⟨buffer, lrp_p + 1, rest⟩)

def resolveComponents : Nat → Resolving → Prog W (Except (Option Errno) (List UInt8))
  | _, ⟨buffer, _, []⟩ => pure (.ok buffer)
  | 0, ⟨_, _, _ :: _⟩ => stop .outOfFuel
  | fuel + 1, ⟨buffer, lrp_p, name :: rest⟩ => do
      match ← resolveComponent kernel buffer lrp_p name rest with
      | .failed errno => pure (.error errno)
      | .next state => resolveComponents fuel state

/-- The buffer and the cursor before the first component. -/
def startPath (pathname : CString) (buffer : List UInt8) :
    Prog W (Option (List UInt8 × Nat)) := do
  let buffer ← put buffer 0 [slash]
  let buffer ← put buffer 1 [0]
  if pathname.head? ≠ some slash then do
    match ← call (kernel.getcwd PATH_MAX) with
    | none => pure none
    | some cwd =>
        let buffer ← put buffer 0 (cwd ++ [0])
        pure (some (buffer, (CBuffer.string 0 buffer).length))
  else pure (some (buffer, 0))

/-- `my_realpath`: the buffer with the resolved path, or `errno`. `allocated` is
what `malloc` returns for a missing `resolved_path`. -/
def myRealpath (fuel : Nat) (pathname : Option CString)
    (resolved_path allocated : Option (List UInt8)) :
    Prog W (Except (Option Errno) (List UInt8)) :=
  match pathname with
  | none => pure (.error (some .einval))
  | some pathname =>
      if PATH_MAX < pathname.length then pure (.error (some .enametoolong))
      else
        match resolved_path.or allocated with
        | none => pure (.error none)
        | some local_resolved_path => do
            match ← startPath kernel pathname local_resolved_path with
            | none => pure (.error none)
            | some (buffer, lrp_p) =>
                match getPartPath (some pathname) with
                | none => stop .overflow
                | some ppnn => resolveComponents kernel fuel ⟨buffer, lrp_p, ppnn.nodes⟩

end Program

end LinuxProgramming.Files
