import EditScope.Proofs.Outline.Flattening
import EditScope.Proofs.Outline.Links
import EditScope.Proofs.Outline.Sound

set_option autoImplicit false

namespace EditScope

namespace Declaration

end Declaration

namespace Outline

open Declaration

variable {d : Declaration Span}

end Outline

end EditScope
