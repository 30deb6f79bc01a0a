/-!
# Version

The version that the program and the service report.
-/

namespace ContractInterface

def version : String := "0.1.0"

end ContractInterface
