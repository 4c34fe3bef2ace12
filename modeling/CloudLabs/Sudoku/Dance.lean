import CloudLabs.Foundation.Bytes
import CloudLabs.Foundation.Ring

/-!
# The solver

`Dance` is an exact cover search on dancing links. A node is its index in `nodes_`, and the fields
of the nodes are functions from nodes; the node of `root_` is `root`. A failed `assert` ends the
program, which is `none` here, as is a loop that uses up its fuel.

The columns stand for what the givens leave open: an empty cell, or a value that is missing in a
row, a column or a box. The rows stand for the values that may be put into an empty cell.
-/

set_option autoImplicit false

namespace CloudLabs.Sudoku

open CloudLabs.Foundation

def kMaxNodes : Nat := 1 + 81 * 4 + 9 * 9 * 9 * 4

structure Dance where
  root : Nat
  inout : Nat → Nat
  columns : Nat → Option Nat
  stack : List Nat
  curNode : Nat
  left : Nat → Nat
  right : Nat → Nat
  up : Nat → Nat
  down : Nat → Nat
  col : Nat → Nat
  name : Nat → Nat
  size : Nat → Int

namespace Dance

open Function (update)

/-! ## Building the matrix -/

def putLeft (old nnew : Nat) (d : Dance) : Dance :=
  let d := { d with left := update d.left nnew (d.left old) }
  let d := { d with right := update d.right nnew old }
  let d := { d with right := update d.right (d.left old) nnew }
  { d with left := update d.left old nnew }

def putUp (old nnew : Nat) (d : Dance) : Dance :=
  let d := { d with up := update d.up nnew (d.up old) }
  let d := { d with down := update d.down nnew old }
  let d := { d with down := update d.down (d.up old) nnew }
  let d := { d with up := update d.up old nnew }
  let d := { d with size := update d.size old (d.size old + 1) }
  { d with col := update d.col nnew old }

/-- The next node of the array, with all its links to itself. -/
def newNode (d : Dance) : Dance :=
  { d with
    curNode := d.curNode + 1
    left := update d.left d.curNode d.curNode
    right := update d.right d.curNode d.curNode
    up := update d.up d.curNode d.curNode
    down := update d.down d.curNode d.curNode
    size := update d.size d.curNode 0 }

def newColumn (n : Nat) (d : Dance) : Option (Nat × Dance) :=
  if d.curNode < kMaxNodes then
    let c := d.curNode
    let d := d.newNode
    some (c, { d with col := update d.col c c, name := update d.name c n })
  else none

def appendColumn (n : Nat) (d : Dance) : Option Dance :=
  if d.columns n = none then do
    let (c, d) ← d.newColumn n
    let d := putLeft d.root c d
    some { d with columns := update d.columns n (some c) }
  else none

def newRow (col : Nat) (d : Dance) : Option (Nat × Dance) :=
  match d.columns col with
  | none => none
  | some c =>
    if d.curNode < kMaxNodes then
      let r := d.curNode
      let d := d.newNode
      let d := { d with name := update d.name r col, col := update d.col r c }
      some (r, putUp (d.col r) r d)
    else none

def getRowCol (row val : Nat) : Nat := 100 + row * 10 + val

def getColCol (col val : Nat) : Nat := 200 + col * 10 + val

def getBoxCol (box val : Nat) : Nat := 300 + box * 10 + val

/-- The digits of the buffer, each of which is checked. -/
def input (problem : Bytes) : Option (Nat → Nat) :=
  if ∀ cell < 81, 48 ≤ (problem.getD cell 0).toNat ∧ (problem.getD cell 0).toNat ≤ 57 then
    some fun cell => (problem.getD cell 0).toNat - 48
  else none

/-- The box of a cell. -/
def boxOf (cell : Nat) : Nat := cell / 9 / 3 * 3 + cell % 9 / 3

/-- `rows[row][val]`: the value is given in the row; likewise `hasCol` and `hasBox`. -/
def hasRow (inout : Nat → Nat) (row val : Nat) : Bool :=
  (List.range 81).any fun i => i / 9 = row ∧ inout i = val

def hasCol (inout : Nat → Nat) (col val : Nat) : Bool :=
  (List.range 81).any fun i => i % 9 = col ∧ inout i = val

def hasBox (inout : Nat → Nat) (box val : Nat) : Bool :=
  (List.range 81).any fun i => boxOf i = box ∧ inout i = val

/-- The names of the columns, in the order in which they are appended. -/
def columnNames (inout : Nat → Nat) : List Nat :=
  (List.range 81).filter (fun i => inout i = 0) ++
  (List.range 9).flatMap fun i => (List.range' 1 9).flatMap fun v =>
    (if hasRow inout i v then [] else [getRowCol i v]) ++
    (if hasCol inout i v then [] else [getColCol i v]) ++
    (if hasBox inout i v then [] else [getBoxCol i v])

/-- The cells and values that get a row, in this order. -/
def choices (inout : Nat → Nat) : List (Nat × Nat) :=
  ((List.range 81).filter fun i => inout i = 0).flatMap fun i =>
    ((List.range' 1 9).filter fun v =>
      ¬ (hasRow inout (i / 9) v ∨ hasCol inout (i % 9) v ∨ hasBox inout (boxOf i) v)).map (i, ·)

/-- The four nodes for a value in a cell. -/
def addRow (choice : Nat × Nat) (d : Dance) : Option Dance := do
  let (i, v) := choice
  let (n0, d) ← d.newRow i
  let (nr, d) ← d.newRow (getRowCol (i / 9) v)
  let (nc, d) ← d.newRow (getColCol (i % 9) v)
  let (nb, d) ← d.newRow (getBoxCol (boxOf i) v)
  some (putLeft n0 nb (putLeft n0 nc (putLeft n0 nr d)))

/-- The memory before the constructor has done anything. -/
def blank (inout : Nat → Nat) : Dance where
  root := 0
  inout := inout
  columns := fun _ => none
  stack := []
  curNode := 0
  left := fun _ => 0
  right := fun _ => 0
  up := fun _ => 0
  down := fun _ => 0
  col := fun _ => 0
  name := fun _ => 0
  size := fun _ => 0

/-- The constructor `Dance::Dance`. -/
def new (problem : Bytes) : Option Dance := do
  let inout ← input problem
  let (root, d) ← (blank inout).newColumn 0
  let d := { d with root := root }
  let d ← (columnNames inout).foldlM (fun d n => d.appendColumn n) d
  (choices inout).foldlM (fun d choice => d.addRow choice) d

/-! ## The search -/

/-- The loop of `get_min_column`, at column `cc`, with the best column so far. -/
def minFrom (d : Dance) : Nat → Nat → Nat → Int → Option Nat
  | 0, _, _, _ => none
  | fuel + 1, cc, c, minSize =>
    if cc = d.root then some c
    else if minSize > d.size cc then
      if d.size cc ≤ 1 then some cc else minFrom d fuel (d.right cc) cc (d.size cc)
    else minFrom d fuel (d.right cc) c minSize

def getMinColumn (fuel : Nat) (d : Dance) : Option Nat :=
  let c := d.right d.root
  if d.size c > 1 then d.minFrom fuel (d.right c) c (d.size c) else some c

/-- The header of a column leaves the list of the headers. -/
def unlinkColumn (c : Nat) (d : Dance) : Dance :=
  let d := { d with left := update d.left (d.right c) (d.left c) }
  { d with right := update d.right (d.left c) (d.right c) }

def relinkColumn (c : Nat) (d : Dance) : Dance :=
  let d := { d with left := update d.left (d.right c) c }
  { d with right := update d.right (d.left c) c }

/-- A node leaves its column. -/
def unlink (j : Nat) (d : Dance) : Dance :=
  let d := { d with up := update d.up (d.down j) (d.up j) }
  let d := { d with down := update d.down (d.up j) (d.down j) }
  { d with size := update d.size (d.col j) (d.size (d.col j) - 1) }

def relink (j : Nat) (d : Dance) : Dance :=
  let d := { d with size := update d.size (d.col j) (d.size (d.col j) + 1) }
  let d := { d with up := update d.up (d.down j) j }
  { d with down := update d.down (d.up j) j }

def cover (fuel c : Nat) (d : Dance) : Option Dance :=
  let d := unlinkColumn c d
  forNodes (fun d => d.down) c
    (fun row d => forNodes (fun d => d.right) row (fun j d => some (unlink j d)) fuel (d.right row) d)
    fuel (d.down c) d

def uncover (fuel c : Nat) (d : Dance) : Option Dance := do
  let d ← forNodes (fun d => d.up) c
    (fun row d => forNodes (fun d => d.left) row (fun j d => some (relink j d)) fuel (d.left row) d)
    fuel (d.up c) d
  some (relinkColumn c d)

/-- The loop that reads cell and value off the nodes of a row. -/
def readRow (d : Dance) : Nat → Nat → Option Nat → Option Nat → Option (Nat × Nat)
  | _, _, some cell, some val => some (cell, val)
  | 0, _, _, _ => none
  | fuel + 1, n, cell, val =>
    if d.name n < 100 then d.readRow fuel (d.right n) (some (d.name n)) val
    else d.readRow fuel (d.right n) cell (some (d.name n % 10))

/-- The rows of the stack are entered into the board. -/
def enter (fuel : Nat) (d : Dance) : Option Dance := do
  let inout ← d.stack.foldlM (fun inout n => do
    let (cell, val) ← d.readRow fuel n none none
    some (update inout cell val)) d.inout
  some { d with inout := inout }

/-- The loop of `solve` over the rows of the column `col`; `rec` is the recursive call. -/
def tryRows (walk : Nat) (rec : Dance → Option (Bool × Dance)) (col : Nat) :
    Nat → Nat → Dance → Option (Bool × Dance)
  | 0, _, _ => none
  | fuel + 1, row, d =>
    if row = col then some (false, d)
    else do
      let d := { d with stack := d.stack ++ [row] }
      let d ← forNodes (fun d => d.right) row (fun j d => d.cover walk (d.col j)) walk (d.right row) d
      let (found, d) ← rec d
      if found then some (true, d)
      else do
        let d := { d with stack := d.stack.dropLast }
        let d ← forNodes (fun d => d.left) row (fun j d => d.uncover walk (d.col j)) walk
          (d.left row) d
        tryRows walk rec col fuel (d.down row) d

def solve (walk : Nat) : Nat → Dance → Option (Bool × Dance)
  | 0, _ => none
  | fuel + 1, d =>
    if d.left d.root = d.root then do
      let d ← d.enter walk
      some (true, d)
    else do
      let col ← d.getMinColumn walk
      let d ← d.cover walk col
      let (found, d) ← tryRows walk (solve walk fuel) col walk (d.down col) d
      if found then some (true, d)
      else do
        let d ← d.uncover walk col
        some (false, d)

def getAnswer (d : Dance) (answer : Bytes) : Bytes :=
  (List.range 81).map (fun i => UInt8.ofNat (d.inout i + 48)) ++ answer.drop 81

end Dance

/-- `solver` on the buffer of a problem, which it overwrites. -/
def solver (fuel : Nat) (problem : Bytes) : Option Bytes := do
  let d ← Dance.new problem
  let (_, d) ← d.solve fuel fuel
  some (d.getAnswer problem)

end CloudLabs.Sudoku
