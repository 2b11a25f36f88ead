import Lift6502.Symbol.Sources

/-!
# Names of the Commodore 64

The tables of names for the machine itself: the memory map, the routines of its ROM, its hardware
registers and its zero page.
-/

namespace Lift6502.Commodore

/-- Places in main memory. -/
def memoryMap : EntryTable :=
  Std.ExtTreeMap.ofList
    ([(0x0100, ⟨"STACK_PAGE", some "6510 hardware stack"⟩),
      (0x0200, ⟨"INPUT_BUFFER", some "BASIC line input buffer"⟩),
      (0x0277, ⟨"KEYBOARD_BUFFER", some "Ten-character keyboard queue"⟩),
      (0x0286, ⟨"TEXT_COLOR", some "Current character color"⟩),
      (0x0288, ⟨"SCREEN_PAGE", some "High byte of screen memory for the editor"⟩),
      (0x0291, ⟨"SHIFT_MODE_LOCK", none⟩),
      (0x0314, ⟨"IRQ_VECTOR", some "IRQ handler address, low byte"⟩),
      (0x0315, ⟨"IRQ_VECTOR_HI", none⟩),
      (0x0316, ⟨"BRK_VECTOR", none⟩),
      (0x0317, ⟨"BRK_VECTOR_HI", none⟩),
      (0x0318, ⟨"NMI_VECTOR", some "NMI handler address, low byte"⟩),
      (0x0319, ⟨"NMI_VECTOR_HI", none⟩),
      (0x033C, ⟨"TAPE_BUFFER", some "Cassette buffer, free for small routines"⟩),
      (0x0400, ⟨"SCREEN_RAM", some "Default screen memory"⟩),
      (0x07F8, ⟨"SPRITE_POINTERS", some "Sprite data pointers for the default screen"⟩),
      (0x0801, ⟨"BASIC_START", some "Start of BASIC program text"⟩),
      (0xA000, ⟨"BASIC_ROM", some "BASIC interpreter ROM, or RAM underneath"⟩)] : List (Address × Entry))

/-- Entry points of the ROM. -/
def routines : EntryTable :=
  Std.ExtTreeMap.ofList
    ([(0xAB1E, ⟨"STROUT", some "BASIC: print zero-terminated string at A/Y"⟩),
      (0xBDCD, ⟨"LINPRT", some "BASIC: print unsigned integer in X/A"⟩),
      (0xE544, ⟨"CLEAR_SCREEN", some "Screen editor: clear screen"⟩),
      (0xE566, ⟨"CURSOR_HOME", some "Screen editor: home the cursor"⟩),
      (0xEA31, ⟨"IRQ_HANDLER", some "Default IRQ handler"⟩),
      (0xEA81, ⟨"IRQ_RETURN", some "Restore registers and RTI"⟩),
      (0xFF81, ⟨"SCINIT", some "Initialize VIC and screen editor"⟩),
      (0xFF84, ⟨"IOINIT", some "Initialize CIAs, SID volume and I/O"⟩),
      (0xFF87, ⟨"RAMTAS", some "Clear zero page, set up buffers, test RAM"⟩),
      (0xFF8A, ⟨"RESTOR", some "Restore default I/O vectors"⟩),
      (0xFF8D, ⟨"VECTOR", some "Read or set I/O vectors"⟩),
      (0xFF90, ⟨"SETMSG", some "Control KERNAL messages"⟩),
      (0xFF93, ⟨"SECOND", none⟩),
      (0xFF96, ⟨"TKSA", none⟩),
      (0xFF99, ⟨"MEMTOP", some "Read or set top of RAM"⟩),
      (0xFF9C, ⟨"MEMBOT", some "Read or set bottom of RAM"⟩),
      (0xFF9F, ⟨"SCNKEY", some "Scan the keyboard"⟩),
      (0xFFA2, ⟨"SETTMO", none⟩),
      (0xFFA5, ⟨"ACPTR", none⟩),
      (0xFFA8, ⟨"CIOUT", none⟩),
      (0xFFAB, ⟨"UNTLK", none⟩),
      (0xFFAE, ⟨"UNLSN", none⟩),
      (0xFFB1, ⟨"LISTEN", none⟩),
      (0xFFB4, ⟨"TALK", none⟩),
      (0xFFB7, ⟨"READST", some "Read I/O status word"⟩),
      (0xFFBA, ⟨"SETLFS", some "Set logical, device and secondary address"⟩),
      (0xFFBD, ⟨"SETNAM", some "Set file name"⟩),
      (0xFFC0, ⟨"OPEN", some "Open a logical file"⟩),
      (0xFFC3, ⟨"CLOSE", some "Close a logical file"⟩),
      (0xFFC6, ⟨"CHKIN", some "Open channel for input"⟩),
      (0xFFC9, ⟨"CHKOUT", some "Open channel for output"⟩),
      (0xFFCC, ⟨"CLRCHN", some "Restore default channels"⟩),
      (0xFFCF, ⟨"CHRIN", some "Input a character"⟩),
      (0xFFD2, ⟨"CHROUT", some "Output a character"⟩),
      (0xFFD5, ⟨"LOAD", some "Load RAM from a device"⟩),
      (0xFFD8, ⟨"SAVE", some "Save RAM to a device"⟩),
      (0xFFDB, ⟨"SETTIM", some "Set the jiffy clock"⟩),
      (0xFFDE, ⟨"RDTIM", some "Read the jiffy clock"⟩),
      (0xFFE1, ⟨"STOP", some "Check the STOP key"⟩),
      (0xFFE4, ⟨"GETIN", some "Get a character from the keyboard buffer"⟩),
      (0xFFE7, ⟨"CLALL", some "Close all files"⟩),
      (0xFFEA, ⟨"UDTIM", some "Increment the jiffy clock"⟩),
      (0xFFED, ⟨"SCREEN", some "Return screen columns and rows"⟩),
      (0xFFF0, ⟨"PLOT", some "Read or set cursor position"⟩),
      (0xFFF3, ⟨"IOBASE", some "Return I/O base address"⟩)] : List (Address × Entry))

/-- Registers of the video, sound and interface chips, and the hardware vectors. -/
def hardware : EntryTable :=
  Std.ExtTreeMap.ofList
    ([(0xD000, ⟨"SPRITE0_X", none⟩),
      (0xD001, ⟨"SPRITE0_Y", none⟩),
      (0xD002, ⟨"SPRITE1_X", none⟩),
      (0xD003, ⟨"SPRITE1_Y", none⟩),
      (0xD004, ⟨"SPRITE2_X", none⟩),
      (0xD005, ⟨"SPRITE2_Y", none⟩),
      (0xD006, ⟨"SPRITE3_X", none⟩),
      (0xD007, ⟨"SPRITE3_Y", none⟩),
      (0xD008, ⟨"SPRITE4_X", none⟩),
      (0xD009, ⟨"SPRITE4_Y", none⟩),
      (0xD00A, ⟨"SPRITE5_X", none⟩),
      (0xD00B, ⟨"SPRITE5_Y", none⟩),
      (0xD00C, ⟨"SPRITE6_X", none⟩),
      (0xD00D, ⟨"SPRITE6_Y", none⟩),
      (0xD00E, ⟨"SPRITE7_X", none⟩),
      (0xD00F, ⟨"SPRITE7_Y", none⟩),
      (0xD010, ⟨"SPRITES_X_MSB", some "Bit 8 of each sprite X coordinate"⟩),
      (0xD011, ⟨"VIC_CONTROL_1", some "Vertical scroll, screen height, bitmap mode, raster bit 8"⟩),
      (0xD012, ⟨"RASTER_LINE", some "Current raster line / raster compare"⟩),
      (0xD013, ⟨"LIGHTPEN_X", none⟩),
      (0xD014, ⟨"LIGHTPEN_Y", none⟩),
      (0xD015, ⟨"SPRITE_ENABLE", some "One bit per sprite"⟩),
      (0xD016, ⟨"VIC_CONTROL_2", some "Horizontal scroll, screen width, multicolor mode"⟩),
      (0xD017, ⟨"SPRITE_EXPAND_Y", none⟩),
      (0xD018, ⟨"VIC_MEMORY_SETUP", some "Screen and character memory pointers"⟩),
      (0xD019, ⟨"VIC_IRQ_STATUS", some "Interrupt request register"⟩),
      (0xD01A, ⟨"VIC_IRQ_ENABLE", some "Interrupt enable mask"⟩),
      (0xD01B, ⟨"SPRITE_PRIORITY", none⟩),
      (0xD01C, ⟨"SPRITE_MULTICOLOR", none⟩),
      (0xD01D, ⟨"SPRITE_EXPAND_X", none⟩),
      (0xD01E, ⟨"SPRITE_SPRITE_COLLISION", none⟩),
      (0xD01F, ⟨"SPRITE_BACKGROUND_COLLISION", none⟩),
      (0xD020, ⟨"BORDER_COLOR", some "Border color"⟩),
      (0xD021, ⟨"BACKGROUND_COLOR", some "Background color 0"⟩),
      (0xD022, ⟨"BACKGROUND_COLOR_1", none⟩),
      (0xD023, ⟨"BACKGROUND_COLOR_2", none⟩),
      (0xD024, ⟨"BACKGROUND_COLOR_3", none⟩),
      (0xD025, ⟨"SPRITE_MULTICOLOR_0", none⟩),
      (0xD026, ⟨"SPRITE_MULTICOLOR_1", none⟩),
      (0xD027, ⟨"SPRITE0_COLOR", none⟩),
      (0xD028, ⟨"SPRITE1_COLOR", none⟩),
      (0xD029, ⟨"SPRITE2_COLOR", none⟩),
      (0xD02A, ⟨"SPRITE3_COLOR", none⟩),
      (0xD02B, ⟨"SPRITE4_COLOR", none⟩),
      (0xD02C, ⟨"SPRITE5_COLOR", none⟩),
      (0xD02D, ⟨"SPRITE6_COLOR", none⟩),
      (0xD02E, ⟨"SPRITE7_COLOR", none⟩),
      (0xD400, ⟨"SID_VOICE1_FREQ_LO", none⟩),
      (0xD401, ⟨"SID_VOICE1_FREQ_HI", none⟩),
      (0xD402, ⟨"SID_VOICE1_PULSE_LO", none⟩),
      (0xD403, ⟨"SID_VOICE1_PULSE_HI", none⟩),
      (0xD404, ⟨"SID_VOICE1_CONTROL", some "Waveform, gate, sync, ring modulation"⟩),
      (0xD405, ⟨"SID_VOICE1_ATTACK_DECAY", none⟩),
      (0xD406, ⟨"SID_VOICE1_SUSTAIN_RELEASE", none⟩),
      (0xD407, ⟨"SID_VOICE2_FREQ_LO", none⟩),
      (0xD408, ⟨"SID_VOICE2_FREQ_HI", none⟩),
      (0xD40B, ⟨"SID_VOICE2_CONTROL", none⟩),
      (0xD40E, ⟨"SID_VOICE3_FREQ_LO", none⟩),
      (0xD40F, ⟨"SID_VOICE3_FREQ_HI", none⟩),
      (0xD412, ⟨"SID_VOICE3_CONTROL", none⟩),
      (0xD415, ⟨"SID_FILTER_CUTOFF_LO", none⟩),
      (0xD416, ⟨"SID_FILTER_CUTOFF_HI", none⟩),
      (0xD417, ⟨"SID_FILTER_CONTROL", none⟩),
      (0xD418, ⟨"SID_VOLUME_FILTER", some "Master volume and filter mode"⟩),
      (0xD41B, ⟨"SID_VOICE3_OSCILLATOR", none⟩),
      (0xD41C, ⟨"SID_VOICE3_ENVELOPE", none⟩),
      (0xD800, ⟨"COLOR_RAM", some "Color RAM, 1000 nybbles"⟩),
      (0xDC00, ⟨"CIA1_PORT_A", some "Keyboard matrix columns, joystick 2"⟩),
      (0xDC01, ⟨"CIA1_PORT_B", some "Keyboard matrix rows, joystick 1"⟩),
      (0xDC02, ⟨"CIA1_DDR_A", none⟩),
      (0xDC03, ⟨"CIA1_DDR_B", none⟩),
      (0xDC04, ⟨"CIA1_TIMER_A_LO", none⟩),
      (0xDC05, ⟨"CIA1_TIMER_A_HI", none⟩),
      (0xDC06, ⟨"CIA1_TIMER_B_LO", none⟩),
      (0xDC07, ⟨"CIA1_TIMER_B_HI", none⟩),
      (0xDC08, ⟨"CIA1_TOD_TENTHS", none⟩),
      (0xDC0D, ⟨"CIA1_IRQ_CONTROL", some "Interrupt control and status"⟩),
      (0xDC0E, ⟨"CIA1_CONTROL_A", none⟩),
      (0xDC0F, ⟨"CIA1_CONTROL_B", none⟩),
      (0xDD00, ⟨"CIA2_PORT_A", some "VIC bank select, serial bus"⟩),
      (0xDD01, ⟨"CIA2_PORT_B", none⟩),
      (0xDD02, ⟨"CIA2_DDR_A", none⟩),
      (0xDD03, ⟨"CIA2_DDR_B", none⟩),
      (0xDD04, ⟨"CIA2_TIMER_A_LO", none⟩),
      (0xDD05, ⟨"CIA2_TIMER_A_HI", none⟩),
      (0xDD0D, ⟨"CIA2_NMI_CONTROL", some "NMI control and status"⟩),
      (0xDD0E, ⟨"CIA2_CONTROL_A", none⟩),
      (0xDD0F, ⟨"CIA2_CONTROL_B", none⟩),
      (0xFFFA, ⟨"HW_NMI_VECTOR", none⟩),
      (0xFFFB, ⟨"HW_NMI_VECTOR_HI", none⟩),
      (0xFFFC, ⟨"HW_RESET_VECTOR", none⟩),
      (0xFFFD, ⟨"HW_RESET_VECTOR_HI", none⟩),
      (0xFFFE, ⟨"HW_IRQ_VECTOR", none⟩),
      (0xFFFF, ⟨"HW_IRQ_VECTOR_HI", none⟩)] : List (Address × Entry))

/-- Variables of the system in the zero page. -/
def zeroPage : EntryTable :=
  Std.ExtTreeMap.ofList
    ([(0x0000, ⟨"CPU_PORT_DDR", some "6510 on-chip port data direction"⟩),
      (0x0001, ⟨"CPU_PORT", some "6510 on-chip port: ROM banking, tape"⟩),
      (0x002B, ⟨"TXTTAB_LO", none⟩),
      (0x002C, ⟨"TXTTAB_HI", none⟩),
      (0x002D, ⟨"VARTAB_LO", none⟩),
      (0x002E, ⟨"VARTAB_HI", none⟩),
      (0x0037, ⟨"MEMSIZ_LO", none⟩),
      (0x0038, ⟨"MEMSIZ_HI", none⟩),
      (0x0090, ⟨"STATUS", some "KERNAL I/O status word"⟩),
      (0x0091, ⟨"STOP_KEY_FLAG", none⟩),
      (0x009D, ⟨"KERNAL_MESSAGE_MODE", none⟩),
      (0x00A0, ⟨"JIFFY_CLOCK_HI", none⟩),
      (0x00A1, ⟨"JIFFY_CLOCK_MID", none⟩),
      (0x00A2, ⟨"JIFFY_CLOCK_LO", none⟩),
      (0x00BA, ⟨"CURRENT_DEVICE", none⟩),
      (0x00C5, ⟨"LAST_KEY", some "Matrix code of the last key pressed"⟩),
      (0x00C6, ⟨"KEY_COUNT", some "Characters in the keyboard buffer"⟩),
      (0x00CB, ⟨"CURRENT_KEY", none⟩),
      (0x00CC, ⟨"CURSOR_BLINK_ENABLE", none⟩),
      (0x00D1, ⟨"LINE_POINTER_LO", none⟩),
      (0x00D2, ⟨"LINE_POINTER_HI", none⟩),
      (0x00D3, ⟨"CURSOR_COLUMN", none⟩),
      (0x00D6, ⟨"CURSOR_ROW", none⟩),
      (0x00F3, ⟨"COLOR_POINTER_LO", none⟩),
      (0x00F4, ⟨"COLOR_POINTER_HI", none⟩)] : List (Address × Entry))

def sources : Sources := { memoryMap, routines, hardware, zeroPage }

end Lift6502.Commodore
