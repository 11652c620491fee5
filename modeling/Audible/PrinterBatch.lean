import Audible.PrinterJobs
import Mathlib.Data.List.TakeWhile

set_option autoImplicit false

/- Command files (`batchMode` of `main.c`): which commands are run for the lines of a file. -/
namespace Audible.Imprimer

variable {line rest script : Text}

end Audible.Imprimer
