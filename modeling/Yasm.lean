import Yasm.Expr
import Yasm.Bytecode
import Yasm.BytecodeList
import Yasm.BytecodeRelease
import Yasm.Symrec
import Yasm.SymrecRun
import Yasm.SymrecFinalize
import Yasm.SymrecLocation
import Yasm.Print
import Yasm.SymrecOwnership
import Yasm.SymrecHistory
import Yasm.SymrecTeardown
